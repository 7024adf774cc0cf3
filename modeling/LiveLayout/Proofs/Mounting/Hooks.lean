import LiveLayout.Proofs.Mounting.Frame
/-!
The hooks of components: what mounting, receiving and unmounting one does to the subscriptions and to the
requests.
-/
namespace LiveLayout

open Engine

theorem OnStage.keep {waits : Nat → Prop} {s s' : State} {i root : Nat} {sc : Scene}
    (h : OnStage s i root sc) (hk : KeepsFor waits s s') (hroot : root < s.store.levels.size) :
    OnStage s' i root sc := by
  refine ⟨hk.registry.trans h.registry, ?_, ?_, hk.immediate.trans h.answer, h.allowed, h.fetches⟩
  · obtain ⟨r, hr, hc, ht, hs, hfaith⟩ := h.interpreter
    obtain ⟨r', hr', hl⟩ := hk.interpreters i r hr
    exact ⟨r', hr', hl.config.trans hc, hl.transport.trans ht, hl.source.trans hs, hl.faithful hfaith⟩
  · rw [← h.root, hk.values.valueAt?_eq hroot]

/-! ### Subscriptions -/

namespace Proxy

theorem changeSubscriptions_run {p : Proxy} {who : Subscriber} (hp : p.subscriber = some who)
    (f : Store → Scope → String → Subscriber → Store) (s : State) :
    p.changeSubscriptions f s = some ((), { s with
      store := p.depends.foldl (fun σ name => f σ p.scope name who) s.store }) := by
  unfold changeSubscriptions
  rw [hp]
  dsimp only
  generalize p.depends = names
  induction names generalizing s with
  | nil => rfl
  | cons name rest ih => exact ih { s with store := f s.store p.scope name who }

theorem mount_run (p : Proxy) (self : Instance) (s : State) : ∃ s',
    p.mount self s = some ({ p with subscriber := some (.proxy self p.key) }, s') ∧
      Quiet { s with store := s.store.subscribeAll p.scope p.depends (.proxy self p.key) } s' := by
  obtain ⟨_, s', htrace, hq⟩ := silent_trace (.subscribed p.key p.depends)
    { s with store := s.store.subscribeAll p.scope p.depends (.proxy self p.key) }
  refine ⟨s', ?_, hq⟩
  unfold Proxy.mount
  rw [bind_run, changeSubscriptions_run rfl, Option.bind_some, bind_run]
  exact congrArg (Option.bind · _) htrace

theorem unmount_run {p : Proxy} {who : Subscriber} (hp : p.subscriber = some who) (s : State) : ∃ s',
    p.unmount s = some ((), s') ∧
      Quiet { s with store := s.store.unsubscribeAll p.scope p.depends who } s' := by
  obtain ⟨_, s', htrace, hq⟩ := silent_trace (.unsubscribed p.key)
    { s with store := s.store.unsubscribeAll p.scope p.depends who }
  refine ⟨s', ?_, hq⟩
  unfold Proxy.unmount
  rw [hp]
  dsimp only
  rw [bind_run, changeSubscriptions_run hp, Option.bind_some]
  exact htrace

/-- A proxy with all but the expressions and the subscriber of another. -/
def turned (p q : Proxy) : Proxy :=
  { q with dynamic := p.dynamic, depends := p.depends, subscriber := p.subscriber }

/-- The store after the subscriptions of a proxy have moved to another scope. -/
def moved (p : Proxy) (scope : Scope) (who : Subscriber) (σ : Store) : Store :=
  if p.scope = scope then σ
  else (σ.unsubscribeAll p.scope p.depends who).subscribeAll scope p.depends who

theorem receive?_run {p q : Proxy} {who : Subscriber} (h : p.sameBrick q = true)
    (hp : p.subscriber = some who) (s : State) :
    p.receive? q s = some (some (p.turned q), { s with store := p.moved q.scope who s.store }) := by
  have hturned : (p.turned q).subscriber = some who := hp
  have hrun : p.receive? q s = (if p.scope ≠ q.scope then do
      p.changeSubscriptions Store.unsubscribe
      (p.turned q).changeSubscriptions Store.subscribe
      return some (p.turned q)
    else return some (p.turned q)) s := by
    unfold Proxy.receive?
    rw [h]
    rfl
  rw [hrun, moved]
  by_cases hscope : p.scope = q.scope
  · rw [if_neg (not_not_intro hscope), if_pos hscope]
    rfl
  · rw [if_pos hscope, if_neg hscope, bind_run, changeSubscriptions_run hp, Option.bind_some, bind_run,
      changeSubscriptions_run hturned]
    rfl

theorem keepsValues_moved (p : Proxy) (scope : Scope) (who : Subscriber) (σ : Store) :
    σ.KeepsValues (p.moved scope who σ) := by
  unfold moved
  split
  · exact .refl σ
  · exact (σ.keepsValues_unsubscribeAll _ _ _).trans (Store.keepsValues_subscribeAll _ _ _ _)

theorem ledger_moved {p q : Proxy} {σ : Store} {self : Instance} {key : Option String}
    {cs : List (Instance × Component)} (hl : Ledger σ ((self, .proxy p) :: cs))
    (hp : p.subscriber = some (.proxy self key)) (hscope : q.scope < σ.levels.size) :
    Ledger (p.moved q.scope (.proxy self key) σ) ((self, .proxy (p.turned q)) :: cs) := by
  have hturned : (p.turned q).subscriber = some (.proxy self key) := hp
  unfold moved
  split
  · refine hl.swap ⟨⟨key, hturned⟩, hscope⟩ fun k x => ?_
    simp only [Component.subscriberAt?_proxy, turned, ‹p.scope = q.scope›]
  · have hrest := hl.unsubscribe hp
    have hkeep := (σ.keepsValues_unsubscribeAll p.scope p.depends (.proxy self key)).keepsScopes
    exact hrest.subscribe (p := p.turned q) (List.nodup_cons.1 hl.nodup).1 (hkeep.lt_size hscope) hturned

/-- Two proxies for the same brick have the same expressions, which read the same variables. -/
theorem sameBrick_parsed {p q : Proxy} (h : p.sameBrick q = true) (hp : p.Parsed) (hq : q.Parsed) :
    p.dynamic = q.dynamic ∧ p.depends = q.depends := by
  simp only [sameBrick, Bool.and_eq_true, beq_iff_eq] at h
  unfold Parsed at hp hq
  rw [h.2, hq] at hp
  exact ⟨(Prod.mk.inj hp).1.symm, (Prod.mk.inj hp).2.symm⟩

end Proxy

/-! ### Requests -/

/-- Nothing changes but records of requests, and what waits. -/
structure Settles (s s' : State) : Prop where
  keeps : Keeps s s'
  store : s'.store = s.store

theorem Settles.trans {s s' s'' : State} (h : Settles s s') (h' : Settles s' s'') : Settles s s'' :=
  ⟨h.keeps.trans h'.keeps, h'.store.trans h.store⟩

theorem Quiet.settles {s s' : State} (h : Quiet s s') : Settles s s' := ⟨h.keeps, h.store⟩

theorem putFetch_run (r : FetchRecord) (s : State) : ∃ s', putFetch r s = some ((), s') ∧
    Settles s s' ∧ s'.fetches.find? (·.owner = r.owner) = some r ∧ s'.network = s.network := by
  refine ⟨_, rfl, ⟨⟨.refl _, rfl, .refl _, rfl, fun _ r h => ⟨r, h, .refl _ r⟩, rfl, rfl⟩, rfl⟩, ?_, rfl⟩
  simp

theorem settle_run (r : FetchRecord) (s : State) :
    ∃ s', (do putFetch r; invalidate r.owner) s = some ((), s') ∧ Settles s s' ∧
      s'.network = s.network ∧ s'.fetchState r.owner = r.state := by
  obtain ⟨s₁, hput, hs₁, hfind, hn⟩ := putFetch_run r s
  obtain ⟨s₂, hinv, hk, hst⟩ := keeps_invalidate r.owner s₁
  refine ⟨s₂, ?_, hs₁.trans ⟨hk, hst⟩, ?_, ?_⟩
  · rw [bind_run, hput]
    exact hinv
  · cases hinv
    exact hn
  · cases hinv
    simp only [State.fetchState, hfind]
    rfl

/-- An answer becomes the state of its fetch component, if that is still mounted. -/
theorem complete_run (s : State) (c : Completion) (outcome : Outcome) :
    ∃ s', complete c outcome s = some ((), s') ∧ Settles s s' ∧ s'.network = s.network ∧
      ∀ r, s.fetches.find? (·.owner = c.owner) = some r → r.alive = true →
        s'.fetchState c.owner = .ofOutcome c.request outcome := by
  have late : Settles s { s with notices := .fetchTooLate :: s.notices } := Quiet.settles ⟨rfl, .refl _⟩
  have hfound : fetchRecord? c.owner s = some (s.fetches.find? (·.owner = c.owner), s) := rfl
  unfold complete
  rw [bind_run, hfound, Option.bind_some]
  cases hr : s.fetches.find? (·.owner = c.owner) with
  | none => exact ⟨_, rfl, late, rfl, nofun⟩
  | some r =>
    have howner : r.owner = c.owner := by simpa using List.find?_some hr
    cases halive : r.alive with
    | false =>
      simp only [halive, Bool.false_eq_true, if_false]
      refine ⟨_, rfl, late, rfl, ?_⟩
      rintro _ ⟨⟩ h
      simp [halive] at h
    | true =>
      simp only [halive, if_true]
      rw [← howner]
      cases outcome with
      | ok response =>
        obtain ⟨s', hrun, hs', hn, hstate⟩ :=
          settle_run { r with state := .ofOutcome c.request (.ok response), alive := true } s
        exact ⟨s', hrun, hs', hn, fun _ _ _ => hstate⟩
      | error f =>
        have hlog : Settles s { s with notices := .fetchFailed f :: s.notices } :=
          Quiet.settles ⟨rfl, .refl _⟩
        obtain ⟨s', hrun, hs', hn, hstate⟩ :=
          settle_run { r with state := .ofOutcome c.request (.error f), alive := true }
            { s with notices := .fetchFailed f :: s.notices }
        exact ⟨s', hrun, hlog.trans hs', hn, fun _ _ _ => hstate⟩

theorem settles_network (s : State) {n : Network} (h : n.immediate = s.network.immediate) :
    Settles s { s with network := n } :=
  ⟨⟨.refl _, rfl, .refl _, h, fun _ r hr => ⟨r, hr, .refl _ r⟩, rfl, rfl⟩, rfl⟩

/-- A request is recorded, and may be answered at once. -/
theorem send_run {s : State} (request : Request) (self : Instance)
    (hr : s.fetches.find? (·.owner = self) = some ⟨self, .pending, true⟩) :
    ∃ s', send request ⟨self, request.toJson⟩ s = some ((), s') ∧ Settles s s' ∧
      s'.network.requests = s.network.requests ++ [request] ∧
      s'.fetchState self = (s.network.immediate.map (FetchState.ofOutcome request.toJson)).getD .pending := by
  cases hi : s.network.immediate with
  | none =>
    refine ⟨{ s with network := { s.network with
      requests := s.network.requests ++ [request]
      waiting := s.network.waiting ++ [(s.network.requests.length, ⟨self, request.toJson⟩)] } },
      ?_, settles_network s rfl, rfl, ?_⟩
    · simp [send, bind_run, hi]
    · simp [State.fetchState, hr]
  | some outcome =>
    obtain ⟨s', hrun, hs', hn, hstate⟩ := complete_run
      { s with network := { s.network with requests := s.network.requests ++ [request] } }
      ⟨self, request.toJson⟩ outcome
    have hsent := settles_network s (n := { s.network with requests := s.network.requests ++ [request] }) rfl
    refine ⟨s', ?_, hsent.trans hs', by rw [hn], hstate _ hr rfl⟩
    simpa [send, bind_run, hi] using hrun

theorem Fetch.mount_run {s : State} {i root : Nat} {sc : Scene} (hs : OnStage s i root sc) {f : Fetch}
    (hroot : s.store.root f.scope = root) (hlt : root < s.store.levels.size) (self : Instance) :
    ∃ s', f.mount self s = some ((), s') ∧ Settles s s' ∧
      s'.network.requests = s.network.requests ++
        (sc.sent? (s.store.layers f.scope) (Component.fetch f).bare).toList ∧
      s'.fetchState self =
        sc.firstState (s.store.layers f.scope) { f with props := f.props.bare, scope := 0 } := by
  obtain ⟨s₁, hput, hs₁, hfind, hn₁⟩ := putFetch_run ⟨self, .pending, true⟩ s
  have hroot₁ : s₁.store.root f.scope = root := by rw [hs₁.store, hroot]
  have hlayers : s₁.store.layers f.scope = s.store.layers f.scope := by rw [hs₁.store]
  have hrequest : Paints s₁.store i root sc f.request? _ _ := request?_paints hroot₁
  have hpaint := hrequest s₁ rfl (hs.keep hs₁.keeps hlt)
  rw [hlayers] at hpaint
  obtain ⟨request, _, s₂, hrequest, hdrawn, hq, rfl⟩ := hpaint.cases.resolve_left (by simp)
  obtain rfl := Option.some.inj hdrawn
  have hs₂ := hs₁.trans hq.settles
  have hn₂ : s₂.network = s.network := hq.network.trans hn₁
  have hfind₂ : s₂.fetches.find? (·.owner = self) = some ⟨self, .pending, true⟩ := by rw [hq.fetches, hfind]
  have fail (n : Notice) (error : Json) : ∃ s', (do log n; putFetch ⟨self, .failed error, true⟩) s₂ =
      some ((), s') ∧ Settles s s' ∧ s'.network.requests = s.network.requests ∧
        s'.fetchState self = .failed error := by
    obtain ⟨s₃, hput, hs₃, hfind, hn⟩ := putFetch_run ⟨self, .failed error, true⟩
      { s₂ with notices := n :: s₂.notices }
    have hlog : Settles s₂ { s₂ with notices := n :: s₂.notices } := Quiet.settles ⟨rfl, .refl _⟩
    refine ⟨s₃, hput, hs₂.trans (hlog.trans hs₃), by rw [hn, ← hn₂], ?_⟩
    simp only [State.fetchState, hfind]
    rfl
  simp only [Fetch.mount, bind_run, hput, hrequest, Option.bind_some, Component.bare, Scene.sent?,
    Scene.firstState]
  cases hreq : sc.request? (s.store.layers f.scope) f.props.bare with
  | none =>
    obtain ⟨s', hrun, hs', hn, hstate⟩ := fail .fetchWithoutUrl (.object [("message", .string Notice.noUrlText)])
    refine ⟨s', hrun, hs', ?_, hstate⟩
    cases f.transport <;> simp [hn]
  | some request =>
    cases htr' : f.transport with
    | false =>
      obtain ⟨s', hrun, hs', hn, hstate⟩ := fail (.fetchSkipped request.url) Failure.unavailable.toJson
      exact ⟨s', hrun, hs', by simp [hn], hstate⟩
    | true =>
      obtain ⟨s', hrun, hs', hn, hstate⟩ := send_run
        (s := { s₂ with notices := .fetching request.method request.url :: s₂.notices }) request self hfind₂
      have hlog : Settles s₂ { s₂ with notices := .fetching request.method request.url :: s₂.notices } :=
        Quiet.settles ⟨rfl, .refl _⟩
      refine ⟨s', hrun, hs₂.trans (hlog.trans hs'), by simp [hn, hn₂], ?_⟩
      rw [hstate, hn₂, hs.answer]
      cases sc.answer <;> rfl

theorem Fetch.unmount_run (self : Instance) (s : State) :
    ∃ s', Fetch.unmount self s = some ((), s') ∧ Settles s s' ∧ s'.network = s.network := by
  have hfound : fetchRecord? self s = some (s.fetches.find? (·.owner = self), s) := rfl
  unfold Fetch.unmount
  rw [bind_run, hfound, Option.bind_some]
  cases s.fetches.find? fun r : FetchRecord => r.owner = self with
  | none => exact ⟨s, rfl, ⟨.refl s, rfl⟩, rfl⟩
  | some r =>
    obtain ⟨s', hput, hs', -, hn⟩ := putFetch_run { r with alive := false } s
    exact ⟨s', hput, hs', hn⟩

/-! ### Components -/

namespace Component

variable {s : State} {i root scope : Nat} {sc : Scene} {c : Component} {self : Instance}

/-- What mounting a component does: it is entered in the ledger, and sends its request. -/
structure Mounts (s : State) (sc : Scene) (here : Instance) (c c' : Component) (s' : State) : Prop where
  keeps : Keeps s s'
  bare : c'.bare = c.bare
  layers : ∀ σ, c'.layers σ = c.layers σ
  requests : s'.network.requests = s.network.requests ++ (sc.sent? (c.layers s.store) c.bare).toList
  fetchState : ∀ f, c' = .fetch f → s'.fetchState here =
    sc.firstState (s.store.layers f.scope) { f with props := f.props.bare, scope := 0 }
  ledger : ∀ cs, Ledger s.store cs → here ∉ cs.map (·.1) → Ledger s'.store ((here, c') :: cs)

theorem mount_run (hs : OnStage s i root sc) (hscope : scope < s.store.levels.size)
    (hroot : s.store.root scope = root) (hc : c.At i sc.transport scope) (self : Instance) :
    ∃ c' s', c.mount self s = some (c', s') ∧ c'.At i sc.transport scope ∧ Mounts s sc self c c' s' := by
  have hlt : root < s.store.levels.size := by
    rw [← hroot]
    exact Nat.lt_of_le_of_lt (s.store.root_le scope) hscope
  have still (hp : ∀ p, c ≠ .proxy p) (hf : ∀ f, c ≠ .fetch f) : Mounts s sc self c c s := by
    refine ⟨.refl s, rfl, fun _ => rfl, ?_, fun f h => absurd h (hf f), fun cs hl hi => hl.add hi hp⟩
    cases c with
    | fetch f => exact absurd rfl (hf f)
    | _ => exact (List.append_nil _).symm
  cases c with
  | proxy p =>
    obtain ⟨rfl, rfl, hfixed, hparsed⟩ := hc
    obtain ⟨s', hrun, hq⟩ := p.mount_run self s
    refine ⟨.proxy { p with subscriber := some (.proxy self p.key) }, s', ?_, ⟨rfl, rfl, hfixed, hparsed⟩, ?_⟩
    · simp only [Component.mount, bind_run, hrun, Option.bind_some]
      rfl
    · refine ⟨?_, rfl, fun _ => rfl, ?_, nofun, fun cs hl hi => ?_⟩
      · exact (KeepsFor.store s (s.store.keepsValues_subscribeAll _ _ _)).trans hq.keeps
      · rw [hq.network]
        exact (List.append_nil _).symm
      · rw [hq.store]
        exact hl.subscribe (p := { p with subscriber := some (.proxy self p.key) }) hi hscope rfl
  | fetch f =>
    obtain ⟨rfl, htr, hp⟩ := hc
    obtain ⟨s', hrun, hs', hreq, hstate⟩ := f.mount_run hs hroot hlt self
    refine ⟨.fetch f, s', ?_, ⟨rfl, htr, hp⟩, ?_⟩
    · simp only [Component.mount, bind_run, hrun, Option.bind_some]
      rfl
    · refine ⟨hs'.keeps, rfl, fun _ => rfl, hreq, ?_, fun cs hl hi => ?_⟩
      · rintro _ ⟨⟩
        exact hstate
      · rw [hs'.store]
        exact hl.add hi fun _ h => nomatch h
  | conditional props => exact ⟨_, s, rfl, hc, still (fun _ h => nomatch h) nofun⟩
  | forEach props => exact ⟨_, s, rfl, hc, still (fun _ h => nomatch h) nofun⟩
  | slot props => exact ⟨_, s, rfl, hc, still (fun _ h => nomatch h) nofun⟩
  | probe | plain => exact hc.elim

/-- A component that is unmounted is struck out of the ledger. -/
theorem unmount_ensures (hc : ∀ p kids, c ≠ .probe p kids) (self : Instance) (s : State) :
    Ensures (c.unmount self) s fun _ s' => Keeps s s' ∧ s'.network = s.network ∧
      ∀ cs, Ledger s.store ((self, c) :: cs) → Ledger s'.store cs := by
  cases c with
  | proxy p =>
    cases hsub : p.subscriber with
    | none =>
      have hrun : (Component.proxy p).unmount self s = some ((), s) := by
        simp [Component.unmount, Proxy.unmount, hsub]
      refine .of_run hrun ⟨.refl s, rfl, fun cs hl => ?_⟩
      obtain ⟨key, hkey⟩ := (hl.follows _ (List.mem_cons_self ..)).1
      rw [hsub] at hkey
      cases hkey
    | some who =>
      obtain ⟨s', hrun, hq⟩ := Proxy.unmount_run hsub s
      refine .of_run hrun ⟨?_, hq.network, fun cs hl => ?_⟩
      · exact (KeepsFor.store s (s.store.keepsValues_unsubscribeAll _ _ _)).trans hq.keeps
      · obtain ⟨key, hkey⟩ := (hl.follows _ (List.mem_cons_self ..)).1
        rw [hsub] at hkey
        cases hkey
        rw [hq.store]
        exact hl.unsubscribe hsub
  | fetch f =>
    obtain ⟨s', hrun, hs', hn⟩ := Fetch.unmount_run self s
    refine .of_run hrun ⟨hs'.keeps, hn, fun cs hl => ?_⟩
    rw [hs'.store]
    exact hl.drop fun _ h => nomatch h
  | probe p kids => exact absurd rfl (hc p kids)
  | _ => exact .pure ⟨.refl s, rfl, fun cs hl => hl.drop fun _ h => nomatch h⟩

/-- A component in a ledger becomes what another describes, unless that is of another kind or for
another brick. -/
theorem receive?_ensures {next : Component} {scope' : Nat} {tr : Bool}
    {cs : List (Instance × Component)} (hl : Ledger s.store ((self, c) :: cs))
    (hscope : scope' < s.store.levels.size) (hc : c.At i tr scope) (hnext : next.At i tr scope') :
    Ensures (c.receive? next) s fun r s' => match r with
      | none => s' = s
      | some c' => c'.At i tr scope' ∧ c'.bare = next.bare ∧ (∀ σ, c'.layers σ = next.layers σ) ∧ Keeps s s' ∧
          Ledger s'.store ((self, c') :: cs) := by
  -- A component that follows no variable becomes the next one with nothing else happening.
  have still {c' : Component} (hc' : ∀ p, c ≠ .proxy p) (hp : ∀ p, c' ≠ .proxy p) :
      Ledger s.store ((self, c') :: cs) := (hl.drop hc').add (List.nodup_cons.1 hl.nodup).1 hp
  cases c with
  | proxy p =>
    cases next with
    | proxy q =>
      obtain ⟨⟨key, hsub⟩, -⟩ := hl.follows _ (List.mem_cons_self ..)
      obtain ⟨-, -, -, hp⟩ := hc
      obtain ⟨hi, rfl, hfixed, hq⟩ := hnext
      cases hb : p.sameBrick q with
      | false =>
        refine .of_run (a := none) (t := s) ?_ rfl
        simp [Component.receive?, Proxy.receive?, bind_run, hb]
      | true =>
        obtain ⟨hdynamic, hdepends⟩ := Proxy.sameBrick_parsed hb hp hq
        have hrun : (Component.proxy p).receive? (.proxy q) s = some (some (.proxy (p.turned q)),
            { s with store := p.moved q.scope (.proxy self key) s.store }) := by
          simp only [Component.receive?, bind_run, Proxy.receive?_run hb hsub, Option.bind_some]
          rfl
        refine .of_run hrun ⟨⟨hi, rfl, hfixed, ?_⟩, ?_, fun _ => rfl, .store s (p.keepsValues_moved _ _ _),
          Proxy.ledger_moved hl hsub hscope⟩
        · rw [Proxy.turned, hdynamic, hdepends]
          exact hq
        · rw [Proxy.turned, hdynamic, hdepends]
          rfl
    | _ => exact .pure rfl
  | conditional props =>
    cases next with
    | conditional props' =>
      exact .pure ⟨hnext, rfl, fun _ => rfl, .refl s, still (fun _ h => nomatch h) fun _ h => nomatch h⟩
    | _ => exact .pure rfl
  | forEach props =>
    cases next with
    | forEach props' =>
      exact .pure ⟨hnext, rfl, fun _ => rfl, .refl s, still (fun _ h => nomatch h) fun _ h => nomatch h⟩
    | _ => exact .pure rfl
  | slot props =>
    cases next with
    | slot props' =>
      exact .pure ⟨hnext, rfl, fun _ => rfl, .refl s, still (fun _ h => nomatch h) fun _ h => nomatch h⟩
    | _ => exact .pure rfl
  | fetch f =>
    cases next with
    | fetch g =>
      obtain ⟨-, htr, -⟩ := hc
      obtain ⟨hs, htr', hp⟩ := hnext
      refine .pure ⟨⟨hs, htr, hp⟩, ?_, fun _ => rfl, .refl s, still (fun _ h => nomatch h) fun _ h => nomatch h⟩
      simp only [bare, htr, htr']
    | _ => exact .pure rfl
  | probe | plain => exact hc.elim

end Component
end LiveLayout
