import LiveLayout.Proofs.Mounting.Depicted
import LiveLayout.Proofs.Running.Steady
/-!
Reconciliation is transparent. Whatever a host has shown before, a layout that is rendered into it shows what
it shows in a new host, as long as nothing in it fetches.
-/
namespace LiveLayout

open Engine

namespace Mounted

/-! ### Components of replaced trees -/

section

variable {host id : Nat} {next : Mounted}

mutual

theorem mem_components_replace {e : Instance × Component} : (m : Mounted) →
    e ∈ (replace id next m).components host → e ∈ m.components host ∨ e ∈ next.components host
  | .primitive _, h => nomatch h
  | .element _ _ _ children, h => mem_componentsAll_replaceAll children h
  | .component i _ _ _ children, h => by
    rw [replace] at h
    split at h
    · exact .inr h
    · rcases List.mem_cons.1 h with rfl | h
      · exact .inl (List.mem_cons_self ..)
      · exact (mem_componentsAll_replaceAll children h).imp_left (List.mem_cons_of_mem _)
  | .fragment _ children, h => mem_componentsAll_replaceAll children h

theorem mem_componentsAll_replaceAll {e : Instance × Component} : (ms : List Mounted) →
    e ∈ componentsAll host (replaceAll id next ms) →
      e ∈ componentsAll host ms ∨ e ∈ next.components host
  | [], h => nomatch h
  | m :: rest, h => by
    rcases List.mem_append.1 h with h | h
    · exact (mem_components_replace m h).imp_left (List.mem_append_left _)
    · exact (mem_componentsAll_replaceAll rest h).imp_left (List.mem_append_right _)

end

end
end Mounted

/-- What interpreters and their layouts draw on in a state, over the root of a scope. -/
def State.scene (s : State) (r : Interpreter) (scope : Scope) : Scene where
  registry := s.registry
  config := r.config
  source := r.source
  transport := r.transport
  answer := s.network.immediate
  root := s.store.valueAt? (s.store.root scope)

theorem State.ready {s : State} {host i : Nat} {r : Interpreter} {scope : Nat}
    (hr : s.interpreters[i]? = some r) (hf : r.Faithful) (hscope : scope < s.store.levels.size)
    (hhost : ∃ record, s.host? host = some record) :
    Ready s host i (s.store.root scope) (s.scene r scope) :=
  ⟨⟨rfl, ⟨r, hr, rfl, rfl, rfl, hf⟩, rfl, rfl, rfl, rfl⟩,
    Nat.lt_of_le_of_lt (s.store.root_le scope) hscope, hhost⟩

theorem Component.Seated.carry {stays : Nat → Prop} {s s' : State} {c : Component} (h : c.Seated s)
    (hc : Carries stays s s') : c.Seated s' := by
  refine h.move hc.scopes fun i r hr hf => ?_
  obtain ⟨r', hr', -, hf'⟩ := hc.interpreters i r hr
  exact ⟨r', hr', hf' hf⟩

/-- An interpreter has rendered the nodes, over one root. -/
def Planted (s : State) (nodes : List Node) : Prop :=
  ∃ i r root, s.interpreters[i]? = some r ∧ r.Faithful ∧ root < s.store.levels.size ∧
    ∀ n ∈ nodes, n.Placed (Within s.store i r.transport root)

theorem Planted.carry {stays : Nat → Prop} {s s' : State} {nodes : List Node} (h : Planted s nodes)
    (hc : Carries stays s s') : Planted s' nodes := by
  obtain ⟨i, r, root, hr, hf, hroot, hplaced⟩ := h
  obtain ⟨r', hr', htransport, hf'⟩ := hc.interpreters i r hr
  refine ⟨i, r', root, hr', hf' hf, hc.scopes.lt_size hroot, fun n hn => ?_⟩
  rw [htransport]
  exact (hplaced n hn).mono fun _ hw => hw.keep hc.scopes

namespace Host

open Mounted

variable {s s' t : State} {h h' : Host} {i scope : Nat} {layout : Json} {known : List Nat}
  {trees : List (List Node)}

/-- The host exists, and all in it comes from layouts, with interpreters and scopes that exist. -/
structure Sound (s : State) (h : Host) : Prop where
  exists_record : ∃ r, s.host? h.id = some r
  seated : ∀ e ∈ componentsAll h.id h.roots, e.2.Seated s

theorem Sound.carry {stays : Nat → Prop} (hh : h.Sound s) (hc : Carries stays s s') (hstays : stays h.id) :
    h.Sound s' := by
  refine ⟨?_, fun e he => (hh.seated e he).carry hc⟩
  obtain ⟨r, hr⟩ := hh.exists_record
  obtain ⟨r', hr', -⟩ := hc.hosts _ r hstays hr
  exact ⟨r', hr'⟩

theorem Sound.keep {waits : Nat → Prop} (hh : h.Sound s) (hk : KeepsFor waits s s') : h.Sound s' :=
  hh.carry (hk.carries fun _ => True) trivial

theorem Sound.ofLayout (hh : h.Sound s) : ∀ e ∈ componentsAll h.id h.roots, e.2.OfLayout :=
  fun e he => (hh.seated e he).ofLayout

/-! ### Flushing -/

/-- Rendering one component again by its own interpreter. -/
theorem rerender_sound {id : Nat} {key : Option String} {c : Component} {renders : Nat}
    {children : List Mounted} (hh : h.Sound s)
    (hfind : findAll? id h.roots = some (.component id key c renders children)) :
    Ensures (rerender h.id depthLimit (update h.id depthLimit) id key c renders children) s fun m s' =>
      Keeps s s' ∧ Sound s' { h with roots := replaceAll id m h.roots } := by
  have hin : (component id key c renders children).components h.id ⊆ componentsAll h.id h.roots :=
    components_findAll? h.roots hfind
  obtain ⟨i, tr, scope, hat, hscope, r, hr, hf⟩ := hh.seated _ (hin (List.mem_cons_self ..))
  have hready := State.ready hr hf hscope hh.exists_record
  have hchildren : ∀ e ∈ componentsAll h.id children, e.2.OfLayout := fun e he =>
    hh.ofLayout e (hin (List.mem_cons_of_mem _ he))
  refine (rerender_depicted (update_redraws depthLimit) hchildren id key renders hready hscope rfl hat
    none).ensures.mono fun m s' hm => ⟨hm.keeps, (hh.keep hm.keeps).exists_record, fun e he => ?_⟩
  rcases mem_componentsAll_replaceAll h.roots he with he | he
  · exact (hh.seated e he).keep hm.keeps
  · exact hm.seated e (by rwa [componentsAll_singleton])

theorem rerenderAll_sound (ids : List Nat) : ∀ s h count, Sound s h →
    Ensures (h.rerenderAll count ids) s fun r s' => Keeps s s' ∧ r.1.id = h.id ∧ Sound s' r.1 := by
  induction ids with
  | nil => exact fun s h count hh => .pure ⟨.refl s, rfl, hh⟩
  | cons id rest ih =>
    intro s h count hh
    cases hfind : findAll? id h.roots with
    | none =>
      obtain ⟨_, s₁, htrace, hq⟩ := silent_trace (.notMounted id) s
      rw [rerenderAll, hfind]
      refine .bind_run htrace ((ih s₁ h count (hh.keep hq.keeps)).mono fun r s' hr => ?_)
      exact ⟨hq.keeps.trans hr.1, hr.2⟩
    | some old =>
      obtain ⟨key, c, renders, children, rfl⟩ := exists_of_findAll? h.roots hfind
      rw [rerenderAll, hfind]
      refine .bind (rerender_sound hh hfind) fun m s₁ hm => ?_
      exact (ih s₁ _ (count + 1) hm.2).mono fun r s' hr => ⟨hm.1.trans hr.1, hr.2⟩

theorem flushRounds_sound (rounds : Nat) : ∀ s h count, Sound s h →
    Ensures (h.flushRounds count rounds) s fun r s' =>
      KeepsFor (· ≠ h.id) s s' ∧ r.1.id = h.id ∧ Sound s' r.1 := by
  induction rounds with
  | zero =>
    intro s h count hh
    obtain ⟨s₁, hclear, hk, -⟩ := h.clearQueue_run s
    refine .bind_run (h.queue_run s) (.bind_run hclear ?_)
    split
    · have hq : Quiet s₁ { s₁ with notices := .endlessFlush roundLimit :: s₁.notices } := ⟨rfl, .refl _⟩
      have hk₂ := hk.trans (hq.keeps.mono fun _ _ => trivial)
      exact .bind_run (log_run _ s₁) (.pure ⟨hk₂, rfl, hh.keep hk₂⟩)
    · exact .pure ⟨hk, rfl, hh.keep hk⟩
  | succ rounds ih =>
    intro s h count hh
    obtain ⟨s₁, hclear, hk, -⟩ := h.clearQueue_run s
    refine .bind_run (h.queue_run s) (.bind_run hclear ?_)
    split
    · exact .pure ⟨hk, rfl, hh.keep hk⟩
    · refine .bind (rerenderAll_sound _ s₁ h count (hh.keep hk)) fun r s₂ ⟨hk₂, hid, hr⟩ => ?_
      refine (ih s₂ r.1 r.2 hr).mono fun r' s' ⟨hk₃, hid', hr'⟩ => ?_
      rw [hid] at hk₃ hid'
      exact ⟨(hk.trans (hk₂.mono fun _ _ => trivial)).trans hk₃, hid', hr'⟩

theorem flush_sound (hh : h.Sound s) : Ensures h.flush s fun r s' =>
    KeepsFor (· ≠ h.id) s s' ∧ r.1.id = h.id ∧ Sound s' r.1 := flushRounds_sound roundLimit s h 0 hh

/-! ### Rendering -/

/-- Nodes that are rendered into a host show their pictures, unless something fetches. -/
theorem render_meets {root : Nat} {sc : Scene} {nodes : List Node} (hh : h.Sound s)
    (hready : Ready s h.id i root sc) (hn : ∀ n ∈ nodes, n.Placed (Within s.store i sc.transport root)) :
    Meets (h.render nodes) s ((nodes.map (Node.sketch s.store)).mapM (sc.still.picture depthLimit))
      fun h' ps s' => h'.id = h.id ∧ Depicted h.id s h'.roots ps s' :=
  ((update_redraws depthLimit).lays hh.ofLayout s nodes hready hn).bind (fun hnone => hnone)
    fun _ _ hnext => .pure ⟨rfl, hnext⟩

theorem render_sound {nodes : List Node} (hh : h.Sound s) (hn : Planted s nodes) :
    Ensures (h.render nodes) s fun h' s' => Keeps s s' ∧ h'.id = h.id ∧ h'.Sound s' := by
  obtain ⟨i, r, root, hr, hf, hroot, hplaced⟩ := hn
  have hready : Ready s h.id i root { s.scene r root with root := s.store.valueAt? root } :=
    ⟨⟨rfl, ⟨r, hr, rfl, rfl, rfl, hf⟩, rfl, rfl, rfl, rfl⟩, hroot, hh.exists_record⟩
  refine (render_meets hh hready hplaced).ensures.mono fun h' s' ⟨hid, hd⟩ => ⟨hd.keeps, hid, ?_, ?_⟩
  · rw [hid]
    exact (hh.keep hd.keeps).exists_record
  · rw [hid]
    exact hd.seated

/-- Rendering a layout gives nodes just where the scene draws some. -/
theorem renderTree_meets {r : Interpreter} (hh : h.Sound s) (hr : s.interpreters[i]? = some r)
    (hf : r.Faithful) (hscope : scope < s.store.levels.size) :
    Meets (renderTree i layout scope) s
      (Scene.tree ((s.scene r scope).still.upTo depthLimit) (s.store.layers scope) layout) fun ns ks s' =>
        Forked s s' ∧ (∀ n ∈ ns, n.Placed (Within s'.store i r.transport (s.store.root scope))) ∧
          ks = some (ns.map (Node.sketch s'.store)) := by
  have hready := State.ready hr hf hscope hh.exists_record
  rw [Scene.upTo_still]
  refine .of_yields (tree_yields hready.onStage hscope rfl depthLimit layout) ?_
  rintro ns ks s' - ⟨hforked, hd⟩
  exact ⟨hforked, hd.placed, by rw [hd.sketch]⟩

/-- Renders a layout into a host. -/
def draw (h : Host) (i : Nat) (layout : Json) (scope : Scope) : Engine Host := do
  h.render (← renderTree i layout scope)

theorem draw_meets {r : Interpreter} (hh : h.Sound s) (hr : s.interpreters[i]? = some r) (hf : r.Faithful)
    (hscope : scope < s.store.levels.size) :
    Meets (h.draw i layout scope) s
      ((s.scene r scope).still.pictures depthLimit (s.store.layers scope) layout) fun h' ps s' =>
        h'.id = h.id ∧ Depicted h.id s h'.roots ps s' := by
  have hready := State.ready hr hf hscope hh.exists_record
  refine (renderTree_meets hh hr hf hscope).bind (fun hnone => by rw [Scene.pictures, hnone]; rfl)
    fun nodes s₁ ⟨hforked, hplaced, hks⟩ => ?_
  rw [Scene.pictures, hks]
  exact (render_meets (hh.keep hforked.keeps) (hready.keep hforked.keeps) hplaced).mono fun h' s' hd =>
    ⟨hd.1, hd.2.after hforked.keeps⟩

/-- The step gives a host that shows the output, and in which nothing fetches. -/
def Ends (x : Engine Host) (s : State) (shown : List Json) : Prop :=
  ∃ h s', x s = some (h, s') ∧ Fetchless h.id h.roots ∧ Output.toJsonAll (snapshot h.roots) = shown

/-- Whatever was in the host, it shows what the scene has pictures of. -/
theorem ends_iff {r : Interpreter} (hh : h.Sound s) (hr : s.interpreters[i]? = some r) (hf : r.Faithful)
    (hscope : scope < s.store.levels.size) (shown : List Json) :
    Ends (h.draw i layout scope) s shown ↔
      ∃ ps, (s.scene r scope).still.pictures depthLimit (s.store.layers scope) layout = some ps ∧
        Picture.toJsonAll ps = shown := by
  have hmeets : Meets (h.draw i layout scope) s _ _ := draw_meets hh hr hf hscope
  constructor
  · rintro ⟨h', s', hrun, hless, hshown⟩
    obtain ⟨hid, hd⟩ := hmeets.ensures h' s' hrun
    rw [hid] at hless
    obtain ⟨ps, hps⟩ := Option.isSome_iff_exists.1 (hd.fetchless.2 hless)
    exact ⟨ps, hps, by rw [← toJsonAll_shows (hd.shows ps hps), hshown]⟩
  · rintro ⟨ps, hps, hshown⟩
    cases hrun : h.draw i layout scope s with
    | none =>
      rw [hmeets.total hrun] at hps
      cases hps
    | some e =>
      obtain ⟨h', s'⟩ := e
      obtain ⟨hid, hd⟩ := hmeets.ensures h' s' hrun
      refine ⟨h', s', hrun, ?_, by rw [toJsonAll_shows (hd.shows ps hps), hshown]⟩
      rw [hid]
      exact hd.fetchless.1 (by rw [hps]; rfl)

/-! ### Hosts over time -/

/-- A host with interpreters, and with the trees that these have rendered so far. Trees are rendered into the
host, and it is flushed, in any order. In between, anything may happen that leaves the host, the scopes and
the interpreters there. -/
inductive Fed : List Nat → List (List Node) → Host → State → Prop where
  | make {h : Host} {s s' : State} (run : Host.make s = some (h, s')) : Fed [] [] h s'
  | interpreter {known : List Nat} {trees : List (List Node)} {h : Host} {s : State} {i : Nat}
    {r : Interpreter} (before : Fed known trees h s) (here : s.interpreters[i]? = some r)
    (fresh : r.bound = []) : Fed (i :: known) trees h s
  | tree {known : List Nat} {trees : List (List Node)} {h : Host} {s s' : State} {i : Nat}
    {layout : Json} {scope : Scope} {nodes : List Node} (before : Fed known trees h s) (by_known : i ∈ known)
    (here : scope < s.store.levels.size) (run : renderTree i layout scope s = some (nodes, s')) :
    Fed known (nodes :: trees) h s'
  | render {known : List Nat} {trees : List (List Node)} {h h' : Host} {s s' : State} {nodes : List Node}
    (before : Fed known trees h s) (produced : nodes ∈ trees) (run : h.render nodes s = some (h', s')) :
    Fed known trees h' s'
  | flush {known : List Nat} {trees : List (List Node)} {h h' : Host} {s s' : State} {n : Nat}
    (before : Fed known trees h s) (run : h.flush s = some ((h', n), s')) : Fed known trees h' s'
  | meanwhile {known : List Nat} {trees : List (List Node)} {h : Host} {s s' : State}
    (before : Fed known trees h s) (carries : Carries (· = h.id) s s') : Fed known trees h s'

/-- What holds of a host over time. -/
structure Stands (known : List Nat) (trees : List (List Node)) (h : Host) (s : State) : Prop where
  sound : h.Sound s
  known : ∀ i ∈ known, ∃ r, s.interpreters[i]? = some r ∧ r.Faithful
  planted : ∀ nodes ∈ trees, Planted s nodes

/-- What carries on leaves all as it was but the host. -/
theorem Stands.carry {stays : Nat → Prop} (hs : Stands known trees h s) (hc : Carries stays s s')
    (hsound : h'.Sound s') : Stands known trees h' s' := by
  refine ⟨hsound, fun i hi => ?_, fun nodes hn => (hs.planted nodes hn).carry hc⟩
  obtain ⟨r, hr, hf⟩ := hs.known i hi
  obtain ⟨r', hr', -, hf'⟩ := hc.interpreters i r hr
  exact ⟨r', hr', hf' hf⟩

theorem make_run (s : State) : ∃ s', Host.make s = some (⟨s.hostCount, []⟩, s') ∧
    Sound s' ⟨s.hostCount, []⟩ ∧ s'.store = s.store ∧ s'.interpreters = s.interpreters ∧
    s'.registry = s.registry ∧ s'.network = s.network ∧ s'.fetches = s.fetches := by
  refine ⟨_, rfl, ⟨⟨⟨s.hostCount, [], 0⟩, ?_⟩, nofun⟩, rfl, rfl, rfl, rfl, rfl⟩
  simp [State.host?]

theorem Fed.stands (hfed : Fed known trees h s) : Stands known trees h s := by
  induction hfed with
  | @make h s s' run =>
    obtain ⟨t, hrun, hsound, -⟩ := make_run s
    cases hrun.symm.trans run
    exact ⟨hsound, nofun, nofun⟩
  | interpreter _ here fresh ih =>
    have hfaithful := Interpreter.faithful_of_bound fresh
    exact ⟨ih.sound, List.forall_mem_cons.2 ⟨⟨_, here, hfaithful⟩, ih.known⟩, ih.planted⟩
  | @tree known trees h s s' i layout scope nodes _ by_known here run ih =>
    obtain ⟨r, hr, hf⟩ := ih.known i by_known
    obtain ⟨hforked, hplaced, -⟩ := (renderTree_meets ih.sound hr hf here).ensures nodes s' run
    have hk := hforked.keeps
    have hstands := ih.carry (hk.carries fun _ => True) (ih.sound.keep hk)
    refine ⟨hstands.sound, hstands.known, List.forall_mem_cons.2 ⟨?_, hstands.planted⟩⟩
    obtain ⟨r', hr', hl⟩ := hk.interpreters i r hr
    refine ⟨i, r', s.store.root scope, hr', hl.faithful hf, ?_, by rw [hl.transport]; exact hplaced⟩
    exact hk.values.keepsScopes.lt_size (Nat.lt_of_le_of_lt (s.store.root_le scope) here)
  | render _ produced run ih =>
    obtain ⟨hk, -, hsound⟩ := render_sound ih.sound (ih.planted _ produced) _ _ run
    exact ih.carry (hk.carries fun _ => True) hsound
  | flush _ run ih =>
    obtain ⟨hk, -, hsound⟩ := flush_sound ih.sound _ _ run
    exact ih.carry (hk.carries fun _ => True) hsound
  | meanwhile _ carries ih => exact ih.carry carries (ih.sound.carry carries rfl)

/-- A layout shows the same in a host, whatever that has shown before, as in a new host. -/
theorem draw_transparent (hfed : Fed known trees h s) (hi : i ∈ known) (hscope : scope < s.store.levels.size)
    (layout : Json) (shown : List Json) :
    Ends (h.draw i layout scope) s shown ↔
      Ends (do
        let fresh ← Host.make
        fresh.draw i layout scope) s shown := by
  have hstands := hfed.stands
  obtain ⟨r, hr, hf⟩ := hstands.known i hi
  obtain ⟨t, hmake, hfresh, hstore, hinterpreters, hregistry, hnetwork, -⟩ := make_run s
  have hrun : ∀ e, (do
      let fresh ← Host.make
      fresh.draw i layout scope) s = some e ↔ draw ⟨s.hostCount, []⟩ i layout scope t = some e := by
    intro e
    rw [bind_run, hmake, Option.bind_some]
  have hends : Ends (draw ⟨s.hostCount, []⟩ i layout scope) t shown ↔ _ :=
    ends_iff hfresh (hinterpreters ▸ hr) hf (hstore ▸ hscope) shown
  have hscene : t.scene r scope = s.scene r scope := by
    unfold State.scene
    rw [hstore, hregistry, hnetwork]
  rw [hscene, hstore] at hends
  rw [ends_iff hstands.sound hr hf hscope, ← hends]
  unfold Ends
  simp only [hrun]

/-! A host shows two variables, turns them round and shows one of them again, under keys that some share. -/

/-- A text that follows a variable, with a key. -/
def keyed (key name : String) : Json :=
  .object [("type", .string "p"), ("id", .string key), ("children", .string ("\x7b" ++ name ++ "\x7d")),
    ("_expressions", .array [.string "children"])]

def twoTexts : Json := .array [keyed "a" "x", keyed "b" "y"]

def threeTexts : Json := .array [keyed "b" "x", keyed "a" "y", keyed "a" "x"]

/-- Two variables, and an interpreter that has not asked for any handler. -/
def twoVariables : State :=
  { store := (Store.addRoot {} [("x", .string "X"), ("y", .string "Y")]).2
    interpreters := [{ config := {}, transport := false, source := none }] }

theorem draw_transparent_keyed : ∃ trees h s, Fed [0] trees h s ∧ 0 ∈ [0] ∧ 0 < s.store.levels.size ∧
    (componentsAll h.id h.roots).length = 2 ∧ ∃ shown, shown.length = 3 ∧
      Ends (h.draw 0 threeTexts 0) s shown := by
  have hrun : (renderTree 0 twoTexts 0 ((Host.make twoVariables).elim twoVariables Prod.snd)).any
      (fun drawn : List Node × State => (render ⟨0, []⟩ drawn.1 drawn.2).any (fun r : Host × State =>
        0 < r.2.store.levels.size ∧ (componentsAll r.1.id r.1.roots).length = 2 ∧
          ((Host.make >>= fun fresh => fresh.draw 0 threeTexts 0) r.2).any (fun r : Host × State =>
            (∀ e ∈ componentsAll r.1.id r.1.roots, e.2.name ≠ "Fetch") ∧
              (Output.toJsonAll (snapshot r.1.roots)).length = 3) = true)) = true := by
    decide +kernel
  obtain ⟨⟨nodes, s₁⟩, htree, hrun⟩ := (Option.any_eq_true _ _).1 hrun
  obtain ⟨⟨h, s⟩, hrender, hchecks⟩ := (Option.any_eq_true _ _).1 hrun
  obtain ⟨hsize, htwo, hfresh⟩ := of_decide_eq_true hchecks
  obtain ⟨⟨h', s'⟩, hrun', hchecks'⟩ := (Option.any_eq_true _ _).1 hfresh
  obtain ⟨hnames, hlength⟩ := of_decide_eq_true hchecks'
  have hmade : Fed [] [] ⟨0, []⟩ _ := .make (s := twoVariables) rfl
  have hknown : Fed [0] [] ⟨0, []⟩ _ := hmade.interpreter (i := 0) rfl rfl
  have htrees : Fed [0] [nodes] ⟨0, []⟩ s₁ := hknown.tree (by decide) (by decide) htree
  have hfed : Fed [0] [nodes] h s := htrees.render (List.mem_singleton_self _) hrender
  refine ⟨[nodes], h, s, hfed, by decide, hsize, htwo, _, hlength, ?_⟩
  rw [draw_transparent hfed (by decide) hsize]
  refine ⟨h', s', hrun', fun e he hfetch => hnames e he ?_, rfl⟩
  obtain ⟨f, hf⟩ := hfetch
  rw [hf]
  rfl

end Host
end LiveLayout
