import LiveLayout.Output
import LiveLayout.Proofs.Drawing.Order
import LiveLayout.Proofs.Drawing.Parts
/-!
What is in a mounted tree: its components with what they have rendered. Where every component shows what
the scene draws for it, the tree shows the scene's picture.
-/
namespace LiveLayout

namespace Mounted

mutual

/-- The components of a mounted tree with their instances, each before what is in it. -/
def components (host : Nat) : Mounted → List (Instance × Component)
  | .primitive _ => []
  | .element _ _ _ children => componentsAll host children
  | .component id _ c _ children => (⟨host, id⟩, c) :: componentsAll host children
  | .fragment _ children => componentsAll host children

def componentsAll (host : Nat) : List Mounted → List (Instance × Component)
  | [] => []
  | m :: rest => m.components host ++ componentsAll host rest

end

theorem componentsAll_append (host : Nat) (ms ns : List Mounted) :
    componentsAll host (ms ++ ns) = componentsAll host ms ++ componentsAll host ns := by
  induction ms with
  | nil => rfl
  | cons m rest ih => rw [List.cons_append, componentsAll, componentsAll, ih, List.append_assoc]

@[simp] theorem componentsAll_singleton (host : Nat) (m : Mounted) :
    componentsAll host [m] = m.components host := List.append_nil _

theorem componentsAll_perm (host : Nat) {ms ns : List Mounted} (h : ms.Perm ns) :
    (componentsAll host ms).Perm (componentsAll host ns) := by
  induction h with
  | nil => exact .refl _
  | cons m _ ih => exact ih.append_left _
  | swap m m' rest =>
    simp only [componentsAll, ← List.append_assoc]
    exact List.perm_append_comm.append_right _
  | trans _ _ ih ih' => exact ih.trans ih'

mutual

/-- The sketch of the node that a tree was mounted for. -/
def sketch (σ : Store) : Mounted → Sketch
  | .primitive v => .primitive v
  | .element tag key props children => .element tag key props.bare (sketchAll σ children)
  | .component _ key c _ _ => .component key (c.layers σ) c.bare
  | .fragment key children => .fragment key (sketchAll σ children)

def sketchAll (σ : Store) : List Mounted → List Sketch
  | [] => []
  | m :: rest => m.sketch σ :: sketchAll σ rest

end

theorem sketchAll_eq_map (σ : Store) (ms : List Mounted) : sketchAll σ ms = ms.map (sketch σ) := by
  induction ms with
  | nil => rfl
  | cons m rest ih => rw [sketchAll, ih, List.map_cons]

theorem sketchAll_append (σ : Store) (ms ns : List Mounted) :
    sketchAll σ (ms ++ ns) = sketchAll σ ms ++ sketchAll σ ns := by
  simp [sketchAll_eq_map]

mutual

/-- The components of a tree, each with what it has rendered. -/
def rendered (σ : Store) (host : Nat) : Mounted → List ((Instance × Component) × List Sketch)
  | .primitive _ => []
  | .element _ _ _ children => renderedAll σ host children
  | .component id _ c _ children =>
    ((⟨host, id⟩, c), sketchAll σ children) :: renderedAll σ host children
  | .fragment _ children => renderedAll σ host children

def renderedAll (σ : Store) (host : Nat) :
    List Mounted → List ((Instance × Component) × List Sketch)
  | [] => []
  | m :: rest => m.rendered σ host ++ renderedAll σ host rest

end

theorem renderedAll_append (σ : Store) (host : Nat) (ms ns : List Mounted) :
    renderedAll σ host (ms ++ ns) = renderedAll σ host ms ++ renderedAll σ host ns := by
  induction ms with
  | nil => rfl
  | cons m rest ih => rw [List.cons_append, renderedAll, renderedAll, ih, List.append_assoc]

@[simp] theorem renderedAll_singleton (σ : Store) (host : Nat) (m : Mounted) :
    renderedAll σ host [m] = m.rendered σ host := List.append_nil _

section

variable (σ : Store) (host : Nat)

mutual

theorem map_rendered : (m : Mounted) → (m.rendered σ host).map (·.1) = m.components host
  | .primitive _ => rfl
  | .element _ _ _ children => map_renderedAll children
  | .component _ _ _ _ children => congrArg _ (map_renderedAll children)
  | .fragment _ children => map_renderedAll children

theorem map_renderedAll : (ms : List Mounted) →
    (renderedAll σ host ms).map (·.1) = componentsAll host ms
  | [] => rfl
  | m :: rest => by rw [renderedAll, List.map_append, map_rendered m, map_renderedAll rest]; rfl

end

end

section

variable {σ τ : Store} {host : Nat}

mutual

/-- Sketches do not change while the layers of the scopes in them stay. -/
theorem sketch_congr : (m : Mounted) → (∀ e ∈ m.components host, e.2.layers τ = e.2.layers σ) →
    m.sketch τ = m.sketch σ
  | .primitive _, _ => rfl
  | .element _ _ _ children, h => by rw [sketch, sketch, sketchAll_congr children h]
  | .component id _ c _ _, h => by rw [sketch, sketch, h (⟨host, id⟩, c) (List.mem_cons_self ..)]
  | .fragment _ children, h => by rw [sketch, sketch, sketchAll_congr children h]

theorem sketchAll_congr : (ms : List Mounted) →
    (∀ e ∈ componentsAll host ms, e.2.layers τ = e.2.layers σ) → sketchAll τ ms = sketchAll σ ms
  | [], _ => rfl
  | m :: rest, h => by
    rw [sketchAll, sketchAll, sketch_congr m fun e he => h e (List.mem_append_left _ he),
      sketchAll_congr rest fun e he => h e (List.mem_append_right _ he)]

end

mutual

theorem rendered_congr : (m : Mounted) → (∀ e ∈ m.components host, e.2.layers τ = e.2.layers σ) →
    m.rendered τ host = m.rendered σ host
  | .primitive _, _ => rfl
  | .element _ _ _ children, h => renderedAll_congr children h
  | .component _ _ _ _ children, h => by
    have hchildren := fun e he => h e (List.mem_cons_of_mem _ he)
    rw [rendered, rendered, sketchAll_congr children hchildren, renderedAll_congr children hchildren]
  | .fragment _ children, h => renderedAll_congr children h

theorem renderedAll_congr : (ms : List Mounted) →
    (∀ e ∈ componentsAll host ms, e.2.layers τ = e.2.layers σ) →
    renderedAll τ host ms = renderedAll σ host ms
  | [], _ => rfl
  | m :: rest, h => by
    rw [renderedAll, renderedAll, rendered_congr m fun e he => h e (List.mem_append_left _ he),
      renderedAll_congr rest fun e he => h e (List.mem_append_right _ he)]

end

end

end Mounted

namespace Scene

/-- A component has rendered what the scene draws for it. -/
def Current (sc : Scene) (σ : Store) (e : (Instance × Component) × List Sketch) : Prop :=
  ∃ depth, sc.component (sc.upTo depth) (e.1.2.layers σ) e.1.2.bare = some e.2

/-- All components but those that are excused are current. -/
def Fresh (sc : Scene) (σ : Store) (excused : Instance × Component → Prop)
    (es : List ((Instance × Component) × List Sketch)) : Prop :=
  ∀ e ∈ es, excused e.1 ∨ sc.Current σ e

variable {sc sc' : Scene} {σ τ : Store} {excused excused' : Instance × Component → Prop}
  {es fs : List ((Instance × Component) × List Sketch)} {host : Nat}

namespace Fresh

theorem nil : sc.Fresh σ excused [] := fun _ he => nomatch he

theorem append (h : sc.Fresh σ excused es) (h' : sc.Fresh σ excused fs) :
    sc.Fresh σ excused (es ++ fs) := by
  intro e he
  rcases List.mem_append.1 he with he | he
  · exact h e he
  · exact h' e he

theorem of_append (h : sc.Fresh σ excused (es ++ fs)) :
    sc.Fresh σ excused es ∧ sc.Fresh σ excused fs :=
  ⟨fun e he => h e (List.mem_append_left _ he), fun e he => h e (List.mem_append_right _ he)⟩

theorem mono (h : sc.Fresh σ excused es) (hP : ∀ e ∈ es, excused e.1 → excused' e.1) :
    sc.Fresh σ excused' es :=
  fun e he => (h e he).imp_left (hP e he)

/-- Components are as current over another store where they stand in the same layers. -/
theorem keep {ms : List Mounted} (h : sc.Fresh σ excused (Mounted.renderedAll σ host ms))
    (hl : ∀ e ∈ Mounted.componentsAll host ms, e.2.layers τ = e.2.layers σ) :
    sc.Fresh τ excused (Mounted.renderedAll τ host ms) := by
  rw [Mounted.renderedAll_congr ms hl]
  intro e he
  refine (h e he).imp_right fun ⟨depth, hd⟩ => ⟨depth, ?_⟩
  have hmem := List.mem_map_of_mem (f := (·.1)) he
  rw [Mounted.map_renderedAll] at hmem
  rwa [hl _ hmem]

end Fresh
end Scene

/-! ### Pictures -/

namespace Output

mutual

/-- The output without what only the engine needs to know. -/
def bare : Output → Output
  | .primitive v => .primitive v
  | .element tag key props children => .element tag key props.bare (bareAll children)

def bareAll : List Output → List Output
  | [] => []
  | o :: rest => o.bare :: bareAll rest

end

theorem bareAll_append (os ps : List Output) : bareAll (os ++ ps) = bareAll os ++ bareAll ps := by
  induction os with
  | nil => rfl
  | cons o rest ih => rw [List.cons_append, bareAll, bareAll, ih, List.cons_append]

mutual

theorem toJson_bare : (o : Output) → o.bare.toJson = o.toJson
  | .primitive _ => rfl
  | .element tag key props children => by
    have hprops : (props.bare.map fun e => (e.1, e.2.toJson)) = props.map fun e => (e.1, e.2.toJson) := by
      simp [Props.bare, Property.toJson_bare]
    have hempty : (bareAll children).isEmpty = children.isEmpty := by cases children <;> rfl
    have hprops' : props.bare.isEmpty = props.isEmpty := by simp [Props.bare]
    simp only [bare, toJson, hprops, hempty, hprops', toJsonAll_bare children]

theorem toJsonAll_bare : (os : List Output) → toJsonAll (bareAll os) = toJsonAll os
  | [] => rfl
  | o :: rest => by rw [bareAll, toJsonAll, toJsonAll, toJson_bare o, toJsonAll_bare rest]

end

end Output

namespace Picture

mutual

/-- Elements and primitives only, as in what a mounted tree shows. -/
def flatten (around : String) : Picture → List Output
  | .primitive v => [.primitive v]
  | .element tag key props children =>
    [.element tag (key.map (Mounted.scopedKey around)) props (flattenAll around children)]
  | .component _ children => flattenAll around children
  | .fragment (some key) children => flattenAll (Mounted.scopedKey around key) children
  | .fragment none children => flattenAll around children

def flattenAll (around : String) : List Picture → List Output
  | [] => []
  | p :: rest => flatten around p ++ flattenAll around rest

end

def toJsonAll (ps : List Picture) : List Json := Output.toJsonAll (flattenAll "" ps)

mutual

/-- The requests, in the order in which they were sent. -/
def sent : Picture → List Request
  | .primitive _ => []
  | .element _ _ _ children => sentAll children
  | .component request children => request.toList ++ sentAll children
  | .fragment _ children => sentAll children

def sentAll : List Picture → List Request
  | [] => []
  | p :: rest => p.sent ++ sentAll rest

end

theorem sentAll_append (ps qs : List Picture) : sentAll (ps ++ qs) = sentAll ps ++ sentAll qs := by
  induction ps with
  | nil => rfl
  | cons p rest ih => rw [List.cons_append, sentAll, sentAll, ih, List.append_assoc]

end Picture

namespace Mounted

/-- The mounted node shows the picture, whatever the keys around it are. -/
def Shows (m : Mounted) (p : Picture) : Prop :=
  ∀ around, Output.bareAll (m.flatten around) = p.flatten around

/-- Nodes that show pictures, one after the other. -/
theorem flattenAll_shows {ms : List Mounted} {ps : List Picture} (h : List.Forall₂ Shows ms ps)
    (around : String) : Output.bareAll (flattenAll around ms) = Picture.flattenAll around ps := by
  induction h with
  | nil => rfl
  | cons h _ ih => rw [flattenAll, Picture.flattenAll, Output.bareAll_append, h around, ih]

theorem toJsonAll_shows {ms : List Mounted} {ps : List Picture} (h : List.Forall₂ Shows ms ps) :
    Output.toJsonAll (snapshot ms) = Picture.toJsonAll ps := by
  rw [Picture.toJsonAll, ← flattenAll_shows h, Output.toJsonAll_bare, snapshot]

end Mounted

namespace Scene

variable {sc sc' : Scene} {σ : Store} {excused : Instance × Component → Prop} {host : Nat}

/-- What holds of single nodes holds of nodes side by side: they show the pictures of their sketches. -/
theorem Fresh.shows_all_of {depth : Nat}
    (h : ∀ (m : Mounted) (p : Picture), sc.picture depth (m.sketch σ) = some p →
      sc'.Fresh σ excused (m.rendered σ host) →
      m.Shows p ∧ sc.Fresh σ (fun _ => False) (m.rendered σ host)) :
    ∀ (ms : List Mounted) (ps : List Picture),
      (Mounted.sketchAll σ ms).mapM (sc.picture depth) = some ps →
      sc'.Fresh σ excused (Mounted.renderedAll σ host ms) →
      List.Forall₂ Mounted.Shows ms ps ∧ sc.Fresh σ (fun _ => False) (Mounted.renderedAll σ host ms) := by
  intro ms
  induction ms with
  | nil =>
    intro ps hp _
    cases hp
    exact ⟨.nil, .nil⟩
  | cons m rest ih =>
    intro ps hp hf
    rw [Mounted.sketchAll, List.mapM_cons] at hp
    obtain ⟨q, hq, hp⟩ := Option.bind_eq_some_iff.1 hp
    obtain ⟨qs, hqs, hp⟩ := Option.bind_eq_some_iff.1 hp
    cases hp
    obtain ⟨hm, hrest⟩ := hf.of_append
    obtain ⟨hshows, hfresh⟩ := h m q hq hm
    obtain ⟨hshows', hfresh'⟩ := ih qs hqs hrest
    exact ⟨.cons hshows hshows', hfresh.append hfresh'⟩

/-- A tree whose components are current in a scene shows the picture that a stricter scene has of its
sketch, and its components are current in that scene, too. Those excused must not occur in the picture. -/
theorem Fresh.shows (hle : sc.Le sc') (hroot : sc'.root = sc.root)
    (hno : ∀ e, excused e → ∀ render layers, sc.component render layers e.2.bare = none) :
    ∀ (depth : Nat) (m : Mounted) (p : Picture), sc.picture depth (m.sketch σ) = some p →
      sc'.Fresh σ excused (m.rendered σ host) →
      m.Shows p ∧ sc.Fresh σ (fun _ => False) (m.rendered σ host) := by
  intro depth
  induction depth with
  | zero => exact fun _ _ h => nomatch h
  | succ depth ih =>
    have all := Fresh.shows_all_of ih
    intro m p hp hf
    cases m with
    | primitive v =>
      cases hp
      exact ⟨fun _ => rfl, .nil⟩
    | element tag key props children =>
      obtain ⟨ps, hps, rfl⟩ := Option.map_eq_some_iff.1 hp
      obtain ⟨hshows, hfresh⟩ := all children ps hps hf
      refine ⟨fun around => ?_, hfresh⟩
      rw [Mounted.flatten, Picture.flatten, Output.bareAll, Output.bare, Mounted.flattenAll_shows hshows]
      rfl
    | fragment key children =>
      obtain ⟨ps, hps, rfl⟩ := Option.map_eq_some_iff.1 hp
      obtain ⟨hshows, hfresh⟩ := all children ps hps hf
      refine ⟨fun around => ?_, hfresh⟩
      cases key <;> exact Mounted.flattenAll_shows hshows _
    | component id key c renders children =>
      obtain ⟨nodes, hnodes, hp⟩ := Option.bind_eq_some_iff.1 hp
      obtain ⟨ps, hps, hp⟩ := Option.bind_eq_some_iff.1 hp
      cases hp
      have hcurrent : nodes = Mounted.sketchAll σ children := by
        rcases hf _ (List.mem_cons_self ..) with he | ⟨d, hd⟩
        · rw [hno _ he] at hnodes
          cases hnodes
        · have hle' := component_le hle (upTo_le hle (Nat.le_max_left depth d))
            (fun _ _ _ _ => by simp only [current?, evaluate_congr hroot]) nodes hnodes
          have hmax := component_le (.refl sc') (upTo_le (.refl sc') (Nat.le_max_right depth d))
            (fun _ _ _ _ => rfl) _ hd
          exact Option.some.inj (hle'.symm.trans hmax)
      subst hcurrent
      obtain ⟨hshows, hfresh⟩ := all children ps hps fun e he => hf e (List.mem_cons_of_mem _ he)
      refine ⟨fun around => Mounted.flattenAll_shows hshows around, fun e he => ?_⟩
      rcases List.mem_cons.1 he with rfl | he
      · exact .inr ⟨depth, hnodes⟩
      · exact hfresh e he

/-- A tree that stands for a layout, with current components, shows the pictures that a stricter scene has
of the layout. -/
theorem Fresh.shows_layout {layers : Layers} {layout : Json} {ms : List Mounted} {ps : List Picture}
    {depth depth' : Nat} (hle : sc.Le sc') (hroot : sc'.root = sc.root)
    (hno : ∀ e, excused e → ∀ render layers, sc.component render layers e.2.bare = none)
    (hp : sc.pictures depth layers layout = some ps)
    (htree : tree (sc'.upTo depth') layers layout = some (Mounted.sketchAll σ ms))
    (hf : sc'.Fresh σ excused (Mounted.renderedAll σ host ms)) :
    List.Forall₂ Mounted.Shows ms ps ∧
      tree (sc.upTo depth) layers layout = some (Mounted.sketchAll σ ms) ∧
      sc.Fresh σ (fun _ => False) (Mounted.renderedAll σ host ms) := by
  obtain ⟨ks, hks, hps⟩ := Option.bind_eq_some_iff.1 hp
  have hdeeper := tree_le (upTo_le hle (Nat.le_max_left depth depth')) layers layout ks hks
  have hdeeper' := tree_le (upTo_le (.refl sc') (Nat.le_max_right depth depth')) layers layout _ htree
  obtain rfl : ks = Mounted.sketchAll σ ms := Option.some.inj (hdeeper.symm.trans hdeeper')
  obtain ⟨hshows, hfresh⟩ := Fresh.shows_all_of (Fresh.shows hle hroot hno depth) ms ps hps hf
  exact ⟨hshows, hks, hfresh⟩

end Scene
end LiveLayout
