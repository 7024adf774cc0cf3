import LiveLayout.Proofs.Unmarked.Pictures
import LiveLayout.Proofs.Running.Transparent
/-!
What a new host shows and sends. For a brick, that does not depend on whether its expressions are marked.
-/
namespace LiveLayout

open Engine

namespace Mounted

variable {host i root : Nat} {sc : Scene} {s s₁ s' : State}

/-- Nodes have been mounted: they show the pictures, and have sent the requests in them. -/
structure Exposed (s : State) (ms : List Mounted) (ps : List Picture) (s' : State) : Prop where
  keeps : Keeps s s'
  shows : List.Forall₂ Shows ms ps
  requests : s'.network.requests = s.network.requests ++ Picture.sentAll ps

namespace Exposed

variable {ms ns children : List Mounted} {ps qs : List Picture}

theorem nil (s : State) : Exposed s [] [] s := ⟨.refl s, .nil, (List.append_nil _).symm⟩

theorem append (h : Exposed s ms ps s₁) (h' : Exposed s₁ ns qs s') : Exposed s (ms ++ ns) (ps ++ qs) s' := by
  refine ⟨h.keeps.trans h'.keeps, List.rel_append h.shows h'.shows, ?_⟩
  rw [h'.requests, h.requests, Picture.sentAll_append, List.append_assoc]

theorem primitive (s : State) (v : Json) : Exposed s [.primitive v] [.primitive v] s :=
  ⟨.refl s, .cons (fun _ => rfl) .nil, (List.append_nil _).symm⟩

theorem element (h : Exposed s children ps s') (tag : String) (key : Option String) (props : Props) :
    Exposed s [.element tag key props children] [.element tag key props.bare ps] s' := by
  refine ⟨h.keeps, .cons (fun around => ?_) .nil, ?_⟩
  · rw [flatten, Picture.flatten, Output.bareAll, Output.bare, flattenAll_shows h.shows]
    rfl
  · rw [h.requests, Picture.sentAll, Picture.sent, Picture.sentAll, List.append_nil]

theorem fragment (h : Exposed s children ps s') (key : Option String) :
    Exposed s [.fragment key children] [.fragment key ps] s' := by
  refine ⟨h.keeps, .cons (fun around => ?_) .nil, ?_⟩
  · cases key <;> exact flattenAll_shows h.shows _
  · rw [h.requests, Picture.sentAll, Picture.sent, Picture.sentAll, List.append_nil]

/-- A component with what it has rendered, after the request that it sent itself. -/
theorem component {c : Component} {id : Nat} {sent : Option Request} (h : Exposed s₁ children ps s')
    (hk : Keeps s s₁) (hsent : s₁.network.requests = s.network.requests ++ sent.toList) (key : Option String)
    (renders : Nat) : Exposed s [.component id key c renders children] [.component sent ps] s' := by
  refine ⟨hk.trans h.keeps, .cons (fun around => flattenAll_shows h.shows around) .nil, ?_⟩
  rw [h.requests, hsent, Picture.sentAll, Picture.sent, Picture.sentAll, List.append_nil, List.append_assoc]

end Exposed

/-- Mounting a node gives a result just when the scene has a picture of it, whoever is subscribed already. -/
def Exposes (host i : Nat) (root : Scope) (sc : Scene) (depth : Nat) : Prop :=
  ∀ s n, Ready s host i root sc → n.Placed (Within s.store i sc.transport root) →
    Yields (mount host depth n) s (sc.picture depth (n.sketch s.store)) fun m p s' => Exposed s [m] [p] s'

theorem Exposes.all {depth : Nat} (h : Exposes host i root sc depth) (hs : Ready s host i root sc)
    (nodes : List Node) (hn : ∀ n ∈ nodes, n.Placed (Within s.store i sc.transport root)) :
    Yields (nodes.mapM (mount host depth)) s ((nodes.map (Node.sketch s.store)).mapM (sc.picture depth))
      fun ms ps s' => Exposed s ms ps s' := by
  rw [List.mapM_map]
  refine (Yields.mapM (I := fun rest ms ps t => Exposed s ms ps t ∧
      ∀ n ∈ rest, n.Placed (Within s.store i sc.transport root))
    (fun n rest ms ps t ⟨hms, hrest⟩ => ?_) nodes [] [] ⟨.nil s, hn⟩).mono fun ms ps t hI => hI.1
  rw [List.forall_mem_cons] at hrest
  have hkeep := hms.keeps.values
  have step := h t n (hs.keep hms.keeps) (hrest.1.mono fun _ hw => hw.keep hkeep.keepsScopes)
  rw [hrest.1.sketch_congr fun c hw => hw.layers_eq hkeep.keepsForks] at step
  exact step.mono fun m p t' hm => ⟨hms.append hm, hrest.2⟩

theorem mount_exposes (depth : Nat) : Exposes host i root sc depth := by
  induction depth with
  | zero => exact fun _ _ _ _ => .endless
  | succ depth ih =>
    intro s n hs hn
    cases n with
    | primitive v => exact .pure (.primitive s v)
    | element tag key props children =>
      rw [Node.sketch, Node.sketchAll_eq, Scene.picture, Option.map_eq_bind]
      exact (ih.all hs children (Node.placed_element.1 hn)).bind fun ms ps s' h => .pure (h.element tag key props)
    | fragment key children =>
      rw [Node.sketch, Node.sketchAll_eq, Scene.picture, Option.map_eq_bind]
      exact (ih.all hs children (Node.placed_fragment.1 hn)).bind fun ms ps s' h => .pure (h.fragment key)
    | component key c =>
      obtain ⟨id, c', s₁, s₂, s₃, hnext, htrace, hmount, he⟩ := enter hs (Node.placed_component.1 hn) key
      refine .bind_run hnext (.bind_run htrace (.bind_run hmount ?_))
      rw [Node.sketch, Scene.picture]
      refine (he.yields hs depth).bind fun nodes ks s₄ hrendered => ?_
      obtain ⟨hf, rfl, hplaced⟩ := hrendered
      refine (ih.all ((hs.keep he.keeps).keep hf.keeps) nodes hplaced).bind fun ms ps s₅ h => .pure ?_
      exact h.component (he.keeps.trans hf.keeps) (by rw [hf.network, he.requests]) key 1

end Mounted

namespace Host

open Mounted

variable {s : State} {i depth : Nat} {r : Interpreter} {scope : Scope} {layout : Json}

/-- Renders a layout into a new host, where layouts and trees are at most so deep. -/
def drawNew (depth i : Nat) (layout : Json) (scope : Scope) : Engine Host := do
  let h ← Host.make
  let nodes ← Renderer.tree (Renderer.upTo depth) i layout scope
  return { h with roots := ← Mounted.reconcile h.id depth (Mounted.update h.id depth) h.roots nodes }

theorem drawNew_depthLimit (i : Nat) (layout : Json) (scope : Scope) :
    drawNew depthLimit i layout scope = (do
      let fresh ← Host.make
      fresh.draw i layout scope) := rfl

/-- The step gives a host that shows the output, and sends the requests on the way. -/
def Presents (x : Engine Host) (s : State) (shown : List Json) (sent : List Request) : Prop :=
  ∃ h s', x s = some (h, s') ∧ Output.toJsonAll (snapshot h.roots) = shown ∧
    s'.network.requests = s.network.requests ++ sent

/-- Mounts the nodes that a step gives in a new host, in a tree at most so deep. -/
def drawNodes (depth : Nat) (render : Engine (List Node)) : Engine Host := do
  let h ← Host.make
  let nodes ← render
  return { h with roots := ← Mounted.reconcile h.id depth (Mounted.update h.id depth) h.roots nodes }

/-- What a new host shows is what the scene has pictures of, and it has sent the requests in them. -/
theorem drawNodes_shows (hr : s.interpreters[i]? = some r) (hf : r.Faithful) (hscope : scope < s.store.levels.size)
    {render : Engine (List Node)} {ks : Option (List Sketch)}
    (hrender : ∀ t, OnStage t i (s.store.root scope) (s.scene r scope) → t.store = s.store →
      t.fetches = s.fetches → Yields render t ks (Rendered t i r.transport (s.store.root scope))) (depth : Nat) :
    Yields (drawNodes depth render) s (ks.bind (·.mapM ((s.scene r scope).picture depth))) fun h ps s' =>
      List.Forall₂ Shows h.roots ps ∧ s'.network.requests = s.network.requests ++ Picture.sentAll ps := by
  obtain ⟨t, hmake, hsound, hstore, hinterpreters, hregistry, hnetwork, hfetches⟩ := make_run s
  have hscene : t.scene r scope = s.scene r scope := by
    unfold State.scene
    rw [hstore, hregistry, hnetwork]
  have hready := State.ready (hinterpreters ▸ hr) hf (hstore ▸ hscope) hsound.exists_record
  rw [hscene, hstore] at hready
  refine .bind_run hmake ?_
  refine (hrender t hready.onStage hstore hfetches).bind fun nodes ks u hrendered => ?_
  obtain ⟨hforked, rfl, hplaced⟩ := hrendered
  rw [reconcile_nil]
  refine ((mount_exposes depth).all (hready.keep hforked.keeps) nodes hplaced).map fun ms ps u' h => ?_
  exact ⟨h.shows, by rw [h.requests, hforked.network, hnetwork]⟩

theorem drawNew_shows (hr : s.interpreters[i]? = some r) (hf : r.Faithful) (hscope : scope < s.store.levels.size)
    (depth : Nat) (layout : Json) :
    Yields (drawNew depth i layout scope) s
      ((s.scene r scope).pictures depth (s.store.layers scope) layout) fun h ps s' =>
        List.Forall₂ Shows h.roots ps ∧ s'.network.requests = s.network.requests ++ Picture.sentAll ps := by
  refine drawNodes_shows hr hf hscope (fun t ht hstore _ => ?_) depth
  rw [← hstore] at hscope
  have htree := tree_yields ht hscope (by rw [hstore]) depth layout
  rwa [hstore] at htree

theorem drawNew_yields (hr : s.interpreters[i]? = some r) (hf : r.Faithful) (hscope : scope < s.store.levels.size)
    (depth : Nat) (layout : Json) :
    Yields (drawNew depth i layout scope) s
      ((s.scene r scope).pictures depth (s.store.layers scope) layout) fun h ps s' =>
        Output.toJsonAll (snapshot h.roots) = Picture.toJsonAll ps ∧
          s'.network.requests = s.network.requests ++ Picture.sentAll ps :=
  (drawNew_shows hr hf hscope depth layout).mono fun _ _ _ ⟨hshows, hsent⟩ => ⟨toJsonAll_shows hshows, hsent⟩

theorem presents_iff (hr : s.interpreters[i]? = some r) (hf : r.Faithful) (hscope : scope < s.store.levels.size)
    (shown : List Json) (sent : List Request) :
    Presents (drawNew depth i layout scope) s shown sent ↔
      ((s.scene r scope).pictures depth (s.store.layers scope) layout).map Scene.report = some (shown, sent) := by
  rcases (drawNew_yields hr hf hscope depth layout).cases with
    ⟨hrun, hps⟩ | ⟨h, ps, s', hrun, hps, hshown, hsent⟩
  · simp [Presents, hrun, hps]
  · rw [hps, Option.map_some, Option.some_inj, Scene.report, Prod.mk.injEq, ← hshown]
    constructor
    · rintro ⟨h', t, hrun', hshown', hsent'⟩
      cases hrun.symm.trans hrun'
      exact ⟨hshown', List.append_cancel_left (hsent.symm.trans hsent')⟩
    · rintro ⟨hshown', rfl⟩
      exact ⟨h, s', hrun, hshown', hsent⟩

/-- A brick shows the same and sends the same, be its expressions marked or in place, as long as no marked property
is a hook or shares its name with anything else. A proxy for the marked ones makes the tree deeper by one. -/
theorem presents_unmarked {b : Brick} (hr : s.interpreters[i]? = some r) (hf : r.Faithful)
    (hscope : scope < s.store.levels.size) (hfields : (b.fields.map (·.1)).Nodup) (hannotated : b.Annotated)
    (hclass : r.config.classAttribute ≠ "children")
    (halone : ∀ typeName, b.typeName? = some typeName →
      b.Distinct s.registry r.config typeName ∧ b.Hookless s.registry typeName)
    (depth : Nat) (shown : List Json) (sent : List Request) :
    (Presents (drawNew depth i (.object b.fields) scope) s shown sent →
      Presents (drawNew depth i (.object b.unmarked.fields) scope) s shown sent) ∧
    (Presents (drawNew depth i (.object b.unmarked.fields) scope) s shown sent →
      Presents (drawNew (depth + 1) i (.object b.fields) scope) s shown sent) := by
  have hinlines : ∀ typeName, b.typeName? = some typeName → ((s.scene r scope).target? typeName).isSome = true →
      (s.scene r scope).Inlines b typeName := fun typeName htype _ =>
    ⟨hfields, hannotated, (halone typeName htype).1, (halone typeName htype).2, hclass⟩
  have hdefines := Scene.report_defines rfl hinlines (s.store.layers scope) depth
  simp only [presents_iff hr hf hscope]
  exact ⟨hdefines.1 _, hdefines.2 _⟩

/-! A brick fetches from where a variable says. -/

def fetching : Brick where
  fields := [("type", .string "Fetch"), ("url", .string "\x7bhere\x7d"), ("load", .object [("type", .string "p")]),
    ("id", .string "brick-1"), ("_expressions", .array [.string "url"])]

/-- A variable, and an interpreter with a transport. -/
def wired : State :=
  { store := (Store.addRoot {} [("here", .string "/items")]).2
    interpreters := [{ config := {}, transport := true, source := none }] }

theorem presents_unmarked_fetching : ∃ shown sent, shown.length = 1 ∧ sent.length = 1 ∧
    Presents (drawNew depthLimit 0 (.object fetching.fields) 0) wired shown sent ∧
    Presents (drawNew depthLimit 0 (.object fetching.unmarked.fields) 0) wired shown sent := by
  have hrun : (drawNew depthLimit 0 (.object fetching.fields) 0 wired).any (fun r : Host × State =>
      (Output.toJsonAll (snapshot r.1.roots)).length = 1 ∧ r.2.network.requests.length = 1) = true := by
    decide +kernel
  obtain ⟨⟨h, s'⟩, hrun, hchecks⟩ := (Option.any_eq_true _ _).1 hrun
  obtain ⟨hshown, hsent⟩ := of_decide_eq_true hchecks
  have hnames : Annotate.expressionNames fetching.fields = ["url"] := by decide
  have hannotated : fetching.Annotated := by
    unfold Brick.Annotated
    rw [hnames]
    rfl
  have halone : ∀ typeName, fetching.typeName? = some typeName →
      fetching.Distinct wired.registry {} typeName ∧ fetching.Hookless wired.registry typeName := by
    intro typeName htype
    have hfetch : some "Fetch" = fetching.typeName? := by decide
    obtain rfl := Option.some.inj (hfetch.trans htype)
    decide +kernel
  have hmarked : Presents (drawNew depthLimit 0 (.object fetching.fields) 0) wired _ _ := ⟨h, s', hrun, rfl, rfl⟩
  exact ⟨_, _, hshown, hsent, hmarked, (presents_unmarked rfl (Interpreter.faithful_of_bound rfl)
    (by decide) (by decide) hannotated (by decide) halone depthLimit _ _).1 hmarked⟩

/-! A form field has a hook called `class`. The hook takes the place of a class in place, but not of a marked one. -/

def classed : Brick where
  fields := [("type", .string "input"), ("name", .string "n"), ("class", .string "\x7bx\x7d"),
    ("id", .string "brick-1"), ("_expressions", .array [.string "class"])]

def classHook : State :=
  { store := (Store.addRoot {} [("x", .string "X")]).2
    registry := { fields := [("input", [("class", ⟨0, none⟩)])] }
    interpreters := [{ config := {}, transport := false, source := none }] }

theorem not_presents_unmarked_classed : (classed.fields.map (·.1)).Nodup ∧ classed.Annotated ∧
    classed.Distinct classHook.registry {} "input" ∧ ({} : Config).classAttribute ≠ "children" ∧
    ∃ shown shown', shown ≠ shown' ∧
      Presents (drawNew depthLimit 0 (.object classed.fields) 0) classHook shown [] ∧
      Presents (drawNew depthLimit 0 (.object classed.unmarked.fields) 0) classHook shown' [] := by
  have hnames : Annotate.expressionNames classed.fields = ["class"] := by decide
  refine ⟨by decide, ?_, by decide +kernel, by decide, ?_⟩
  · unfold Brick.Annotated
    rw [hnames]
    rfl
  · have hmarked : (drawNew depthLimit 0 (.object classed.fields) 0 classHook).any (fun r : Host × State =>
        (Output.toJsonAll (snapshot r.1.roots)).any (fun v => ((v.get? "props").bind (·.get? "className")).isSome) ∧
          r.2.network.requests.length = 0) = true := by
      decide +kernel
    have hplain : (drawNew depthLimit 0 (.object classed.unmarked.fields) 0 classHook).any (fun r : Host × State =>
        (Output.toJsonAll (snapshot r.1.roots)).any
            (fun v => ((v.get? "props").bind (·.get? "className")).isSome) = false ∧
          r.2.network.requests.length = 0) = true := by
      decide +kernel
    obtain ⟨⟨h, s'⟩, hrun, hchecks⟩ := (Option.any_eq_true _ _).1 hmarked
    obtain ⟨⟨h', t⟩, hrun', hchecks'⟩ := (Option.any_eq_true _ _).1 hplain
    obtain ⟨hclass, hsent⟩ := of_decide_eq_true hchecks
    obtain ⟨hnone, hsent'⟩ := of_decide_eq_true hchecks'
    refine ⟨_, _, fun heq => ?_, ⟨h, s', hrun, rfl, List.eq_nil_of_length_eq_zero hsent⟩,
      ⟨h', t, hrun', rfl, List.eq_nil_of_length_eq_zero hsent'⟩⟩
    rw [heq, hnone] at hclass
    cases hclass

end Host
end LiveLayout
