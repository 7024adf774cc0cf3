import LiveLayout.Proofs.Fetching.Rounds
import LiveLayout.Proofs.Rows.Turns
/-!
The calls of hooks by which one tree of a host becomes another. What is in both trees is neither mounted nor unmounted,
and an answer that it waits for still comes; whatever enters or leaves is called for that once.
-/
namespace LiveLayout

open Engine Lifecycle

namespace Lifecycle

/-! ### How often hooks are called -/

theorem count_callsOf (id : Nat) (call : Call) (calls : List (Nat × Call)) :
    (callsOf id calls).count call = calls.count (id, call) := by
  induction calls with
  | nil => rfl
  | cons e calls ih =>
    obtain ⟨i, c⟩ := e
    rw [callsOf, List.filterMap_cons, List.count_cons, ← ih]
    by_cases hid : i = id
    · subst hid
      simp [callsOf, List.count_cons]
    · simp [callsOf, hid]

theorem Showing.count_mount {calls : List Call} (h : Showing calls) : calls.count .mount = 1 := by
  induction h with
  | mounted => rfl
  | rendered _ ih => simp [List.count_append, ih]
  | received _ ih => simp [List.count_append, ih]

theorem Showing.count_unmount {calls : List Call} (h : Showing calls) : calls.count .unmount = 0 :=
  List.count_eq_zero.2 h.unmount_notMem

theorem Gone.count_eq {calls : List Call} (h : Gone calls) (call : Call) (hcall : call = .mount ∨ call = .unmount) :
    calls.count call = 1 := by
  cases h with
  | unmounted h => rcases hcall with rfl | rfl <;> simp [List.count_append, h.count_mount, h.count_unmount]
  | refused h => rcases hcall with rfl | rfl <;> simp [List.count_append, h.count_mount, h.count_unmount]

/-- Between two trees with these instances, the calls mount just what enters and unmount just what leaves. -/
structure Exchanges (live live' : List Nat) (calls : List (Nat × Call)) : Prop where
  stays : ∀ id ∈ live, id ∈ live' → (id, .mount) ∉ calls ∧ (id, .unmount) ∉ calls
  enters : ∀ id ∈ live', id ∉ live → calls.count (id, .mount) = 1 ∧ (id, .unmount) ∉ calls
  leaves : ∀ id ∈ live, id ∉ live' → calls.count (id, .unmount) = 1 ∧ (id, .mount) ∉ calls

theorem Sound.exchanges {W : Type} {live live' waiting waiting' : List Nat} {m m' : Machine W} {new : List Entry}
    (h : Sound live waiting m) (h' : Sound live' waiting' m') (hlog : m'.log = m.log ++ new) :
    Exchanges live live' (new.filterMap Entry.call?) := by
  -- How often an instance was called before and after tells how often it has been called in between.
  have hcount (id : Nat) (call : Call) : (history id m'.log).count call =
      (history id m.log).count call + (new.filterMap Entry.call?).count (id, call) := by
    rw [hlog, history_append, List.count_append, ← count_callsOf]
    rfl
  refine ⟨fun id hid hid' => ?_, fun id hid' hid => ?_, fun id hid hid' => ?_⟩
  · have hmount := hcount id .mount
    have hunmount := hcount id .unmount
    rw [(h.showing id hid).count_mount, (h'.showing id hid').count_mount] at hmount
    rw [(h.showing id hid).count_unmount, (h'.showing id hid').count_unmount] at hunmount
    exact ⟨List.count_eq_zero.1 (by omega), List.count_eq_zero.1 (by omega)⟩
  · have hmount := hcount id .mount
    have hunmount := hcount id .unmount
    rw [(h'.showing id hid').count_mount] at hmount
    rw [(h'.showing id hid').count_unmount] at hunmount
    rcases h.gone id hid with hnil | ⟨-, hgone⟩
    · rw [hnil, List.count_nil] at hmount hunmount
      exact ⟨by omega, List.count_eq_zero.1 (by omega)⟩
    · rw [hgone.count_eq .unmount (.inr rfl)] at hunmount
      omega
  · have hmount := hcount id .mount
    have hunmount := hcount id .unmount
    rw [(h.showing id hid).count_mount] at hmount
    rw [(h.showing id hid).count_unmount] at hunmount
    rcases h'.gone id hid' with hnil | ⟨-, hgone⟩
    · rw [hnil, List.count_nil] at hmount
      omega
    · rw [hgone.count_eq .mount (.inl rfl)] at hmount
      rw [hgone.count_eq .unmount (.inr rfl)] at hunmount
      exact ⟨by omega, List.count_eq_zero.1 (by omega)⟩

end Lifecycle

namespace Lifecycle

/-- The log of instances that have been mounted and rendered, and nothing else. -/
def entered (ids : List Nat) : List Entry := ids.flatMap fun id => [.called id .mount, .called id .render]

theorem history_entered {ids : List Nat} (h : ids.Nodup) (id : Nat) :
    history id (entered ids) = if id ∈ ids then [.mount, .render] else [] := by
  induction ids with
  | nil => rfl
  | cons i ids ih =>
    obtain ⟨hi, hids⟩ := List.nodup_cons.1 h
    rw [entered, List.flatMap_cons, history_append]
    change _ ++ history id (entered ids) = _
    rw [ih hids]
    by_cases hid : i = id
    · subst hid
      simp [history, callsOf, hi]
    · simp [history, callsOf, hid, Ne.symm hid]

theorem Sound.entered {W : Type} {ids : List Nat} {m : Machine W} (h : ids.Nodup) (hissued : ∀ id ∈ ids, id ≤ m.lastId)
    (hlog : m.log = entered ids) : Sound ids [] m := by
  refine ⟨h, hissued, fun id hid => ?_, fun id hid => .inl ?_, fun id _ hstale => ?_⟩
  · rw [hlog, history_entered h, if_pos hid]
    exact .mounted
  · rw [hlog, history_entered h, if_neg hid]
  · obtain ⟨before, after, heq, -⟩ := hstale
    have hmem : .invalidated id ∈ m.log := heq ▸ List.mem_append_right _ (List.mem_cons_self ..)
    rw [hlog, Lifecycle.entered] at hmem
    simp at hmem

end Lifecycle

/-! ### Requests -/

/-- All that waits for an answer still does, and who is not unmounted in the meantime keeps the state of its request. -/
structure Awaits (host : Nat) (m m' : Machine State) : Prop where
  lastId : m.lastId ≤ m'.lastId
  waiting : m.world.network.waiting <+: m'.world.network.waiting
  records : ∃ new, m'.log = m.log ++ new ∧ ∀ id ≤ m.lastId, .called id .unmount ∉ new →
    m'.world.record? ⟨host, id⟩ = m.world.record? ⟨host, id⟩
  others : ∀ i : Instance, i.host ≠ host → m'.world.record? i = m.world.record? i

namespace Awaits

variable {host : Nat} {m m' m'' : Machine State}

theorem of_append {new : List Entry} (hlog : m'.log = m.log ++ new) (hlast : m.lastId ≤ m'.lastId)
    (hfetches : m'.world.fetches = m.world.fetches)
    (hwaiting : m'.world.network.waiting = m.world.network.waiting) : Awaits host m m' := by
  have hrecord (i : Instance) : m'.world.record? i = m.world.record? i := by rw [State.record?, hfetches, State.record?]
  exact ⟨hlast, hwaiting ▸ List.prefix_rfl, ⟨new, hlog, fun id _ _ => hrecord ⟨host, id⟩⟩, fun i _ => hrecord i⟩

theorem refl (m : Machine State) : Awaits host m m :=
  .of_append (List.append_nil _).symm (Nat.le_refl _) rfl rfl

theorem trans (h : Awaits host m m') (h' : Awaits host m' m'') : Awaits host m m'' := by
  obtain ⟨new, hlog, hnew⟩ := h.records
  obtain ⟨new', hlog', hnew'⟩ := h'.records
  refine ⟨Nat.le_trans h.lastId h'.lastId, h.waiting.trans h'.waiting, ⟨new ++ new', ?_, fun id hid hnot => ?_⟩,
    fun i hi => (h'.others i hi).trans (h.others i hi)⟩
  · rw [hlog', hlog, List.append_assoc]
  · rw [List.mem_append, not_or] at hnot
    exact (hnew' id (Nat.le_trans hid h.lastId) hnot.2).trans (hnew id hid hnot.1)

theorem of_unsent {calls : List (Nat × Call)} (hmakes : Makes calls m m') (hs : Unsent m.world m'.world) :
    Awaits host m m' := by
  obtain ⟨new, hlog, -⟩ := hmakes.log
  exact .of_append hlog (Nat.le_of_eq hmakes.lastId.symm) hs.fetches (by rw [hs.network])

theorem of_idle (h : Idle host m m') (hs : Unsent m.world m'.world) : Awaits host m m' := by
  obtain ⟨new, hlog, -⟩ := h.log
  exact .of_append hlog (Nat.le_of_eq h.lastId.symm) hs.fetches (by rw [hs.network])

end Awaits

namespace Host

variable {host : Nat} {reply : State → Option Outcome} {m m₁ m₂ : Machine State} {key : Option String}
  {c c₁ : Component}

theorem mount_awaits
    (hmount : ((answering host reply).mount key (m.lastId + 1) c).call (m.lastId + 1) (fun _ => .mount)
      { m with lastId := m.lastId + 1 } = some (c₁, m₁)) : Awaits host m m₁ := by
  obtain ⟨-, -, -, hother, hsends⟩ := mount_call hmount
  have hmakes := Hook.call_makes hmount
  obtain ⟨new, hlog, -⟩ := hmakes.log
  have hlast : m.lastId ≤ m₁.lastId := by
    rw [hmakes.lastId]
    exact Nat.le_succ _
  by_cases hc : c.isFetch = true
  · obtain ⟨f, hf⟩ := Component.isFetch_iff.1 hc
    obtain ⟨own, hsends⟩ := hsends f hf
    have hrecord {i : Instance} (hne : i ≠ ⟨host, m.lastId + 1⟩) : m₁.world.record? i = m.world.record? i := by
      rw [hsends.record, if_neg hne]
      rfl
    refine ⟨hlast, ⟨_, hsends.waiting.symm⟩, ⟨new, hlog, fun id hid _ => hrecord fun heq => ?_⟩,
      fun i hi => hrecord fun heq => hi (congrArg Instance.host heq)⟩
    have := congrArg Instance.id heq
    dsimp only at this
    omega
  · obtain ⟨hfetches, hnetwork⟩ := hother (by simpa using hc)
    exact .of_append hlog hlast hfetches (by rw [hnetwork])

theorem unmount_awaits {id : Nat}
    (hunmount : ((answering host reply).unmount key id c).call id (fun _ => .unmount) m = some ((), m₁)) :
    Awaits host m m₁ := by
  obtain ⟨-, hnetwork, hother, hrecord⟩ := unmount_call hunmount
  have hmakes := Hook.call_makes hunmount
  obtain ⟨new, hlog, hcalls, -⟩ := hmakes.log
  by_cases hc : c.isFetch = true
  · have hother {i : Instance} (hne : i ≠ ⟨host, id⟩) : m₁.world.record? i = m.world.record? i := by
      rw [hrecord hc, if_neg hne]
    refine ⟨Nat.le_of_eq hmakes.lastId.symm, hnetwork ▸ List.prefix_rfl,
      ⟨new, hlog, fun j _ hnot => hother fun heq => hnot ?_⟩, fun i hi => hother fun heq => hi (congrArg Instance.host heq)⟩
    obtain rfl := congrArg Instance.id heq
    rw [← mem_history, history, hcalls]
    simp [callsOf]
  · exact .of_append hlog (Nat.le_of_eq hmakes.lastId.symm) (hother (by simpa using hc)) (by rw [hnetwork])

/-- Every call of a hook serves the requests and lets those wait that do. -/
theorem kept_serves : Kept (answering host reply) Component.Resembles
    fun _ _ m m' => Serves host reply m m' ∧ Awaits host m m' where
  refl _ m := ⟨.refl m, .refl m⟩
  trans h h' := ⟨h.1.trans h'.1, h.2.trans h'.2⟩
  append_right h _ := h
  perm h _ _ := h
  mount hmount hrender := by
    obtain ⟨hresembles, htends⟩ := mount_tends hmount hrender
    obtain ⟨-, hunsent, -⟩ := render_call hrender
    exact ⟨hresembles, htends.serves, (mount_awaits hmount).trans (.of_unsent (Hook.call_makes hrender) hunsent)⟩
  accept hreceive hrender := by
    obtain ⟨hresembles, htends⟩ := accept_tends hreceive hrender
    obtain ⟨hunsent, -⟩ := receive_call hreceive
    obtain ⟨-, hunsent', -⟩ := render_call hrender
    have hreceived : Awaits host _ _ := .of_unsent (Hook.call_makes hreceive) hunsent
    exact ⟨hresembles, htends.serves, hreceived.trans (.of_unsent (Hook.call_makes hrender) hunsent')⟩
  refuse hreceive := by
    obtain ⟨hgiven, htends⟩ := refuse_tends hreceive
    obtain ⟨hunsent, -⟩ := receive_call hreceive
    exact ⟨hgiven, htends.serves, .of_unsent (Hook.call_makes hreceive) hunsent⟩
  unmount hunmount := ⟨(unmount_tends hunmount).serves, unmount_awaits hunmount⟩

/-! ### Operations -/

/-- All trees stand for some nodes and have their instances. -/
theorem exists_houses : (ts : List (Lifecycle.Tree Component)) →
    (∃ ns, (answering host reply).StandFor Component.Resembles ts ns) ∧
      ∃ es, (answering host reply).Houses Component.Resembles ts es
  | [] => ⟨⟨[], .nil⟩, [], .nil⟩
  | .primitive v :: rest => by
    obtain ⟨⟨ns, hns⟩, es, hes⟩ := exists_houses rest
    exact ⟨⟨.primitive v :: ns, .primitive rfl hns⟩, es, .primitive hes⟩
  | .element tag key props children :: rest => by
    obtain ⟨⟨kids, hkids⟩, cs, hcs⟩ := exists_houses children
    obtain ⟨⟨ns, hns⟩, es, hes⟩ := exists_houses rest
    exact ⟨⟨.element tag key props kids :: ns, .element rfl hkids hns⟩, cs ++ es, .element hcs hes⟩
  | .component id key c renders children :: rest => by
    obtain ⟨⟨kids, hkids⟩, cs, hcs⟩ := exists_houses children
    obtain ⟨⟨ns, hns⟩, es, hes⟩ := exists_houses rest
    let e : Resident State Component Node := ⟨id, c, kids, { world := {} }⟩
    exact ⟨⟨.component key c :: ns, .component rfl (Component.resembles_refl c) hns⟩, e :: (cs ++ es),
      .component (e := e) hkids hcs hes⟩
  | .fragment key children :: rest => by
    obtain ⟨⟨kids, hkids⟩, cs, hcs⟩ := exists_houses children
    obtain ⟨⟨ns, hns⟩, es, hes⟩ := exists_houses rest
    exact ⟨⟨.fragment key kids :: ns, .fragment rfl hkids hns⟩, cs ++ es, .fragment hcs hes⟩

variable {roots next : List (Lifecycle.Tree Component)} {count count' : Nat} {m' : Machine State}

theorem rerenderAll_serves (pending : List Nat)
    (hrun : (answering host reply).rerenderAll roots count pending m = some ((next, count'), m')) :
    Serves host reply m m' ∧ Awaits host m m' := by
  induction pending generalizing roots count m with
  | nil =>
    obtain ⟨-, rfl⟩ := pure_eq_some.1 hrun
    exact ⟨.refl m, .refl m⟩
  | cons id rest ih =>
    unfold Family.rerenderAll at hrun
    cases hfind : Tree.findAll? id roots with
    | none =>
      rw [hfind] at hrun
      obtain ⟨_, _, hnote, hrun⟩ := bind_eq_some.1 hrun
      cases hnote
      obtain ⟨hidle, hnetwork⟩ := @noteMissing_idle host reply id m
      have hunsent : Unsent m.world ((answering host reply).noteMissing id m.world) := by
        change Unsent _ (if _ then _ else _)
        split <;> exact ⟨rfl, rfl⟩
      obtain ⟨hserves, hawaits⟩ := ih hrun
      exact ⟨(hidle.serves (by rw [hnetwork])).trans hserves, (Awaits.of_idle hidle hunsent).trans hawaits⟩
    | some old =>
      obtain ⟨key, c, renders, children, rfl⟩ := Tree.exists_of_findAll? roots hfind
      rw [hfind] at hrun
      obtain ⟨t, m₁, hrender, hrun⟩ := bind_eq_some.1 hrun
      obtain ⟨-, cs, hcs⟩ := @exists_houses host reply children
      obtain ⟨c', nodes, m₂, children', ds, hcall, rfl, -, -, hserves, hawaits⟩ :=
        kept_serves.rerender (kept_serves.updates Host.depthLimit) hcs hrender
      obtain ⟨-, hunsent, -⟩ := render_call hcall
      have hmakes := Hook.call_makes hcall
      obtain ⟨hserves', hawaits'⟩ := ih hrun
      exact ⟨(Serves.of_unsent hmakes rfl hunsent).trans (hserves.trans hserves'),
        (Awaits.of_unsent hmakes hunsent).trans (hawaits.trans hawaits')⟩

theorem flushRounds_serves (rounds : Nat)
    (hrun : (answering host reply).flushRounds roots count rounds m = some ((next, count'), m')) :
    Serves host reply m m' ∧ Awaits host m m' := by
  have hidle : Idle host m { m with queue := [] } := .takeQueue m
  induction rounds generalizing roots count m with
  | zero =>
    obtain ⟨pending, m₁, htake, hrun⟩ := bind_eq_some.1 hrun
    cases htake
    obtain ⟨_, m₂, hgive, hrun⟩ := bind_eq_some.1 hrun
    obtain ⟨-, rfl⟩ := pure_eq_some.1 hrun
    unfold Family.giveUp at hgive
    split at hgive
    · obtain ⟨-, rfl⟩ := pure_eq_some.1 hgive
      exact ⟨hidle.serves rfl, .of_idle hidle ⟨rfl, rfl⟩⟩
    · cases hgive
      have hgave : Idle host m { m with
          queue := [], world := (answering host reply).noteEndless m.world, log := m.log ++ [.gaveUp] } :=
        ⟨⟨[.gaveUp], rfl, rfl⟩, rfl, fun h => h, .of_network rfl rfl rfl⟩
      exact ⟨hgave.serves rfl, .of_idle hgave ⟨rfl, rfl⟩⟩
  | succ rounds ih =>
    obtain ⟨pending, m₁, htake, hrun⟩ := bind_eq_some.1 hrun
    cases htake
    have hstart : Serves host reply m { m with queue := [] } ∧ Awaits host m { m with queue := [] } :=
      ⟨hidle.serves rfl, .of_idle hidle ⟨rfl, rfl⟩⟩
    split at hrun
    · obtain ⟨-, rfl⟩ := pure_eq_some.1 hrun
      exact hstart
    · obtain ⟨⟨roots₁, count₁⟩, m₂, hround, hrun⟩ := bind_eq_some.1 hrun
      obtain ⟨hserves, hawaits⟩ := rerenderAll_serves _ hround
      obtain ⟨hserves', hawaits'⟩ := ih hrun (.takeQueue m₂)
      exact ⟨hstart.1.trans (hserves.trans hserves'), hstart.2.trans (hawaits.trans hawaits')⟩

theorem perform_serves {op : Family.Operation State Node} (hop : ∀ change ids, op ≠ .meanwhile change ids)
    (hrun : (answering host reply).perform roots op m = some (next, m')) :
    Serves host reply m m' ∧ Awaits host m m' := by
  have hidle (m : Machine State) : Serves host reply m { m with queue := [] } ∧ Awaits host m { m with queue := [] } :=
    ⟨(Idle.takeQueue m).serves rfl, .of_idle (.takeQueue m) ⟨rfl, rfl⟩⟩
  obtain ⟨-, es, hes⟩ := @exists_houses host reply roots
  cases op with
  | render nodes =>
    obtain ⟨-, -, -, h⟩ := kept_serves.reconcile (kept_serves.updates Host.depthLimit) hes hrun
    exact h
  | flush =>
    obtain ⟨⟨roots₁, count₁⟩, m₁, hflush, hrun⟩ := bind_eq_some.1 hrun
    obtain ⟨-, rfl⟩ := pure_eq_some.1 hrun
    exact flushRounds_serves Host.roundLimit hflush
  | round =>
    obtain ⟨pending, m₁, htake, hrun⟩ := bind_eq_some.1 hrun
    cases htake
    obtain ⟨⟨roots₁, count₁⟩, m₂, hround, hrun⟩ := bind_eq_some.1 hrun
    obtain ⟨-, rfl⟩ := pure_eq_some.1 hrun
    obtain ⟨hserves, hawaits⟩ := rerenderAll_serves _ hround
    exact ⟨(hidle m).1.trans hserves, (hidle m).2.trans hawaits⟩
  | clear =>
    obtain ⟨_, m₁, hunmount, hrun⟩ := bind_eq_some.1 hrun
    obtain ⟨_, m₂, htake, hrun⟩ := bind_eq_some.1 hrun
    cases htake
    obtain ⟨-, rfl⟩ := pure_eq_some.1 hrun
    obtain ⟨hserves, hawaits⟩ := kept_serves.unmountAll hes hunmount
    exact ⟨hserves.trans (hidle m₁).1, hawaits.trans (hidle m₁).2⟩
  | meanwhile change ids => exact absurd rfl (hop change ids)

end Host

/-- No two hosts have the same number. -/
def State.Distinct (s : State) : Prop := (s.hosts.map (·.id)).Nodup

theorem State.Distinct.at_host {s : State} (h : s.Distinct) {host : Nat} {r : HostRecord} (hr : s.host? host = some r) :
    s.At host r.queue r.lastId := by
  have hmem := List.mem_of_find?_eq_some hr
  have hid : r.id = host := by simpa using List.find?_some hr
  refine ⟨⟨r, hmem, hid⟩, fun r' hr' hid' => ?_⟩
  rw [List.inj_on_of_nodup_map h hr' hmem (hid'.trans hid.symm)]
  exact ⟨rfl, rfl⟩

open Mounted

mutual

theorem Mounted.ids_tree : (m : Mounted) → m.tree.ids = m.parts.map Part.id
  | .primitive _ => rfl
  | .element _ _ _ children => idsAll_trees children
  | .component id _ _ _ children => congrArg (id :: ·) (idsAll_trees children)
  | .fragment _ children => idsAll_trees children

theorem Mounted.idsAll_trees : (ms : List Mounted) → Tree.idsAll (trees ms) = numbers ms
  | [] => rfl
  | m :: rest => by
    rw [trees, Tree.idsAll, ids_tree m, idsAll_trees rest, numbers, numbers, partsAll, List.map_append]

end

namespace Host

/-- An operation on a host has led from one tree of it to another by these calls of hooks. -/
structure Operated (host : Nat) (op : Family.Operation State Node) (x y : State × List Mounted)
    (calls : List (Nat × Call)) : Prop where
  run : ∃ m m' new, x.1 = m.state host ∧ y.1 = m'.state host ∧
    (family host).perform (trees x.2) op m = some (trees y.2, m') ∧ m'.log = m.log ++ new ∧
    new.filterMap Entry.call? = calls
  /-- What is in both trees is neither mounted nor unmounted, and what is in one of them is called for that once. -/
  exchanges : Exchanges (numbers x.2) (numbers y.2) calls
  /-- Only what is mounted sends a request. -/
  sends : ∃ mounts : List (Mounting (family host)), mountedIds calls = mounts.map Mounting.id ∧
    y.1.network.requests = x.1.network.requests ++ mounts.flatMap Mounting.sent
  /-- What is in both trees waits for the answer to its request still. -/
  waiting : x.1.network.waiting <+: y.1.network.waiting
  records : ∀ j ∈ numbers x.2, j ∈ numbers y.2 → y.1.record? ⟨host, j⟩ = x.1.record? ⟨host, j⟩
  others : ∀ i : Instance, i.host ≠ host → y.1.record? i = x.1.record? i

theorem operated {α : Type} {host : Nat} {op : Family.Operation State Node} {s s' : State} {roots roots' : List Mounted}
    {f : α → List Mounted} {x : Engine α} {a : α} {r : HostRecord} (hop : ∀ change ids, op ≠ .meanwhile change ids)
    (hfollows : Follows host (fun a => trees (f a)) x ((family host).perform (trees roots) op)) (hs : s.Distinct)
    (hr : s.host? host = some r) (hnodup : (numbers roots).Nodup) (hissued : ∀ j ∈ numbers roots, j ≤ r.lastId)
    (hrun : x s = some (a, s')) (ha : f a = roots') : ∃ calls, Operated host op (s, roots) (s', roots') calls := by
  -- What is in the tree has been mounted and rendered, and nothing else has been called.
  obtain ⟨hstate, hhas⟩ := state_of_at (hs.at_host hr) (entered (numbers roots))
  generalize hm : ({ world := s, queue := r.queue, lastId := r.lastId, log := entered (numbers roots) } :
    Machine State) = m at hstate hhas
  have hsound : Sound (numbers roots) [] m := by
    subst hm
    exact .entered hnodup hissued rfl
  have hlast : ∀ j ∈ numbers roots, j ≤ m.lastId := hsound.issued
  clear hm
  subst hstate
  obtain ⟨m', hperform, rfl, hhas'⟩ := hfollows.run hhas hrun
  rw [ha] at hperform
  obtain ⟨hserves, hawaits⟩ : Serves host (fun s => s.network.immediate) _ _ ∧ Awaits host _ _ :=
    perform_serves hop hperform
  rw [← idsAll_trees] at hsound
  obtain ⟨hsound', new, hlog⟩ := Family.perform_holds op hsound hperform
  rw [Family.Holds, idsAll_trees] at hsound'
  rw [idsAll_trees] at hsound
  have hexchanges := hsound.exchanges hsound' hlog
  have hnew {new' : List Entry} (h : m'.log = m.log ++ new') : new' = new :=
    List.append_cancel_left (h.symm.trans hlog)
  refine ⟨new.filterMap Entry.call?, ⟨m, m', new, rfl, rfl, hperform, hlog, rfl⟩, hexchanges, ?_, hawaits.waiting,
    fun j hold hstill => ?_, hawaits.others⟩
  · obtain ⟨mounts, hmounts, hrequests⟩ := hserves.sends
    obtain ⟨new', hlog', hids⟩ := hmounts.log
    rw [hnew hlog'] at hids
    exact ⟨mounts, hids, hrequests⟩
  · obtain ⟨new', hlog', hrecords⟩ := hawaits.records
    refine hrecords j (hlast j hold) ?_
    rw [hnew hlog']
    exact fun hmem => (hexchanges.stays j hold hstill).2 (List.mem_filterMap.2 ⟨_, hmem, rfl⟩)

/-- An answer comes for whoever waits for it. -/
theorem deliver_answers {s : State} {number : Nat} {c : Completion} {r : FetchRecord} (outcome : Outcome)
    (hfind : s.network.waiting.find? (·.1 = number) = some (number, c)) (hr : s.record? c.owner = some r)
    (halive : r.alive = true) : ∃ s', deliver number outcome s = some (true, s') ∧
      Answers { s with network := s.network.without number } c r outcome s' := by
  obtain ⟨s', hcomplete, hanswers⟩ :=
    complete_answers (s := { s with network := s.network.without number }) outcome hr halive
  refine ⟨s', ?_, hanswers⟩
  rw [deliver_some outcome hfind, hcomplete]
  rfl

end Host
end LiveLayout
