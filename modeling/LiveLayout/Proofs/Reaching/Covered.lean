import LiveLayout.Proofs.Annotating.Ids
import LiveLayout.Proofs.Annotating.Untouched
import LiveLayout.Proofs.Reaching.Ways
import LiveLayout.Proofs.Unmarked.Hosts
/-!
The annotation comes to the bricks that rendering comes to, but for those beyond an entry that only rendering knows.
-/
namespace LiveLayout

open Json (Place Descent)

namespace Annotate

variable {registry : Registry} {options : Options} {form inner : Option String} {fields fields' : List (String × Json)}
  {v w : Json} {s : Descent} {p : Place} {ids : Ids} {config : Config} {name typeName : String}

/-! ### The bricks of an annotated layout -/

theorem Written.not_visited (h : Written w) : ¬Visited registry form w p := by
  intro hvisited
  cases h with
  | text text => cases hvisited
  | texts texts =>
    cases hvisited with
    | item item inside =>
      obtain ⟨text, -, rfl⟩ := List.mem_map.1 (List.mem_of_getElem? item)
      cases inside

/-- A pass leaves the type of an object as it is. -/
theorem typeName?_value (hfields : (fields.map (·.1)).Nodup)
    (h : (value registry options (.object fields) form ids).1 = .object fields') :
    (Brick.mk fields').typeName? = (Brick.mk fields).typeName? := by
  cases htyped : (Brick.mk fields).typeName? with
  | none =>
    rw [value_group htyped] at h
    have htexts := textAt?_group registry options fields form ids
    rw [Json.object.inj h] at htexts
    exact (typeName?_congr (htexts "type") (htexts "brick")).trans htyped
  | some typeName =>
    rw [value_brick htyped] at h
    have hannotated : Annotated registry options typeName form fields _ := brick_annotated hfields form ids
    rw [Json.object.inj h] at hannotated
    exact hannotated.typeName?_eq.trans htyped

/-- Where a pass goes on after another, that one has gone on, unless it has written there. -/
theorem Enters.of_value (hv : v.wellFormed = true) (hw : ¬Written w)
    (h : Enters registry form (value registry options v form ids).1 s inner w) :
    ∃ u ids', Enters registry form v s inner u ∧ w = (value registry options u inner ids').1 := by
  cases v with
  | array items =>
    rw [value_array] at h
    cases h with
    | @item _ i _ item =>
      obtain ⟨ids', hstep⟩ := getElem?_values registry options items form ids i
      obtain ⟨u, hu, rfl⟩ := Option.map_eq_some_iff.1 (hstep.symm.trans item)
      exact ⟨u, ids', .item hu, rfl⟩
  | object fields =>
    have hfields := (Json.wellFormed_object hv).1
    cases htyped : (Brick.mk fields).typeName? with
    | none =>
      have htype : (Brick.mk (group (entries registry options fields) form ids).1).typeName? = _ :=
        typeName?_value hfields (value_group htyped form ids)
      rw [value_group htyped] at h
      cases h with
      | @entry _ name _ untyped entry =>
        obtain ⟨ids', hget⟩ := get?_group registry options fields form ids name
        obtain ⟨u, hu, rfl⟩ := Option.map_eq_some_iff.1 (hget.symm.trans entry)
        exact ⟨u, ids', .entry htyped hu, rfl⟩
      | nested typed => cases (typed.symm.trans htype).trans htyped
    | some typeName =>
      have hannotated : Annotated registry options typeName form fields _ := brick_annotated hfields form ids
      rw [value_brick htyped] at h
      generalize (brick registry options typeName fields (entries registry options fields) form ids).1 = fields'
        at h hannotated
      have htype := hannotated.typeName?_eq.trans htyped
      cases h with
      | entry untyped => cases untyped.symm.trans htype
      | @nested _ _ name _ typed listed free entry =>
        cases typed.symm.trans htype
        rw [hannotated.nestedAttributes_eq] at listed
        rw [hannotated.innerForm_eq]
        have hfree : name ∉ own (stamp? registry typeName fields form) := by
          intro hown
          rcases hannotated.own_eq hown entry with ⟨text, rfl⟩ | ⟨texts, rfl⟩
          · exact hw (.text text)
          · exact hw (.texts texts)
        cases hget : Fields.get? fields name with
        | none =>
          have htext := hannotated.texts name hfree
          rw [textAt?_eq_none.2 hget, textAt?_eq_none, entry] at htext
          cases htext
        | some u =>
          obtain ⟨ids', hafter⟩ := hannotated.visited name listed hfree u hget
          exact ⟨u, ids', .nested htyped listed hfree hget, Option.some.inj (entry.symm.trans hafter)⟩
  | _ => cases h

/-- The bricks that a pass comes to in an annotated layout are those that it has come to before. -/
theorem Visited.of_value (hv : v.wellFormed = true)
    (h : Visited registry form (value registry options v form ids).1 p) : Visited registry form v p := by
  induction p generalizing v form ids with
  | nil =>
    generalize hvalue : (value registry options v form ids).1 = v' at h
    cases h with
    | here typed =>
      obtain ⟨fields, rfl⟩ := exists_object_of_value hvalue
      exact .here ((typeName?_value (Json.wellFormed_object hv).1 hvalue).symm.trans typed)
  | cons s p ih =>
    obtain ⟨inner, w, henters, hinside⟩ := visited_cons_iff.1 h
    obtain ⟨u, ids', hbefore, rfl⟩ := henters.of_value hv fun hw => hw.not_visited hinside
    exact visited_cons_iff.2 ⟨inner, u, hbefore, ih (Json.wellFormed_of_step? hv hbefore.step?) hinside⟩

/-! ### What the annotation does not know of -/

/-- Entries of special bricks on which rendering may go on, but not the annotation: one more branch, the attribute that a
slot names otherwise than by a text, the layouts in `slots` that is a brick itself, and an entry that is rendered as
another. -/
inductive Overlooks (registry : Registry) (config : Config) (fields : List (String × Json)) :
    Special → Place → Prop where
  | elseif : Overlooks registry config fields .conditional [.entry "elseif"]
  | named {name : String} (other : name ≠ "children" ∧ name ≠ "slots")
      (unwritten : Fields.get? fields "slotKey" ≠ some (.string name)) :
      Overlooks registry config fields .slot [.entry name]
  | slots {slots : List (String × Json)} {typeName name : String}
      (entry : Fields.get? fields "slots" = some (.object slots))
      (typed : (Brick.mk slots).typeName? = some typeName)
      (unlisted : name ∉ nestedAttributes registry typeName slots ∨ name ∈ bookkeeping) :
      Overlooks registry config fields .slot [.entry "slots", .entry name]
  | renamed {kind : Special} {name : String} (renamed : Renderer.rename config name ≠ name) :
      Overlooks registry config fields kind [.entry name]

/-- The way to a place leads through an entry that the annotation does not know of. -/
def Overlooked (registry : Registry) (config : Config) (v : Json) (p : Place) : Prop :=
  ∃ q way fields typeName kind, v.at? q = some (.object fields) ∧ (Brick.mk fields).typeName? = some typeName ∧
    Special.ofName? typeName = some kind ∧ Overlooks registry config fields kind way ∧ q ++ way <+: p

theorem Overlooked.cons {q : Place} (h : Overlooked registry config w p) (hw : v.at? q = some w) :
    Overlooked registry config v (q ++ p) := by
  obtain ⟨q', way, fields, typeName, kind, hat, htyped, hkind, hoverlooks, hfront⟩ := h
  refine ⟨q ++ q', way, fields, typeName, kind, ?_, htyped, hkind, hoverlooks, ?_⟩
  · rw [Json.at?_append, hw, Option.bind_some, hat]
  · rw [List.append_assoc]
    exact (List.prefix_append_right_inj q).2 hfront

theorem Overlooks.overlooked {way : Place} {kind : Special} (h : Overlooks registry config fields kind way)
    (htyped : (Brick.mk fields).typeName? = some typeName) (hkind : Special.ofName? typeName = some kind)
    (hfront : way <+: p) : Overlooked registry config (.object fields) p :=
  ⟨[], way, fields, typeName, kind, rfl, htyped, hkind, h, hfront⟩

theorem children_mem_nestedAttributes : "children" ∈ nestedAttributes registry typeName fields :=
  List.mem_eraseDups.2 (List.mem_cons_self ..)

theorem mem_nestedAttributes {kind : Special} (hkind : Special.ofName? typeName = some kind)
    (h : name ∈ kind.nestedAttributes fields) : name ∈ nestedAttributes registry typeName fields := by
  unfold nestedAttributes
  rw [hkind]
  exact List.mem_eraseDups.2 (List.mem_cons_of_mem _ h)

theorem Special.childAttributes_subset (kind : Special) (fields : List (String × Json)) :
    kind.childAttributes ⊆ kind.nestedAttributes fields := by
  unfold Special.nestedAttributes
  split
  · split
    · exact List.Subset.refl _
    · exact List.subset_append_left ..
  · exact List.Subset.refl _

end Annotate

namespace Scene

open Annotate

variable {sc : Scene} {states : FetchState → Prop} {layers inner layers' : Layers} {fields : List (String × Json)}
  {v w : Json} {way p : Place} {key name typeName : String} {kind : Special}

/-- What a special brick renders, the annotation looks for, unless it overlooks the entry. -/
theorem Hands.listed {props : Props} (h : Hands states layers props kind name inner) (hmeta : isMetaField name = false)
    (hseen : ¬Overlooks sc.registry sc.config fields kind [.entry name]) : name ∈ kind.nestedAttributes fields := by
  cases h with
  | branch =>
    have hbranch : Conditional.branch props ∈ ["then", "else", "elseif"] := by
      unfold Conditional.branch
      split
      · decide
      · split <;> decide
    simp only [List.mem_cons, List.not_mem_nil, or_false] at hbranch
    rcases hbranch with hbranch | hbranch | hbranch
    · rw [hbranch]
      exact Special.childAttributes_subset _ _ (by decide)
    · rw [hbranch]
      exact Special.childAttributes_subset _ _ (by decide)
    · rw [hbranch] at hseen
      exact absurd .elseif hseen
  | template => exact Special.childAttributes_subset _ _ (by decide)
  | waiting => exact Special.childAttributes_subset _ _ (by split <;> decide)
  | succeeded => exact Special.childAttributes_subset _ _ (by decide)
  | failed => exact Special.childAttributes_subset _ _ (by decide)
  | named hkey =>
    by_cases hslots : name = "slots"
    · rw [hslots]
      exact Special.childAttributes_subset _ _ (by decide)
    · have hchildren : name ≠ "children" := by
        rintro rfl
        cases hmeta
      by_cases hwritten : Fields.get? fields "slotKey" = some (.string name)
      · have hne : name ≠ "" := of_decide_eq_true (Option.filter_eq_some_iff.1 hkey).2
        unfold Special.nestedAttributes
        rw [hwritten, Option.bind_some, Json.str?]
        dsimp only
        split
        · rename_i hlisted
          exact hlisted.resolve_left hne
        · exact List.mem_append_right _ (List.mem_singleton_self name)
      · exact absurd (.named ⟨hchildren, hslots⟩ hwritten) hseen

/-- An entry that becomes a property is free for the annotation. -/
theorem not_mem_own_of_kept (h : isMetaField key = false ∧ key ≠ "id" ∧ key ≠ "form") (stamp : Option String) :
    key ∉ own stamp := by
  intro hown
  rcases mem_own hown with rfl | rfl | rfl
  · exact h.2.1 rfl
  · cases h.1
  · exact h.2.2 rfl

/-- Where rendering goes on, the annotation goes on, unless it overlooks the entry. -/
theorem Leads.visited (h : sc.Leads states layers v (some way) inner w)
    (hseen : ¬Overlooked sc.registry sc.config v way) (form : Option String) :
    ∃ form', ∀ p, Visited sc.registry form' w p → Visited sc.registry form v (way ++ p) := by
  generalize horigin : some way = origin at h
  cases h with
  | item item =>
    cases horigin
    exact ⟨form, fun p hp => .item item hp⟩
  | @children fields typeName _ _ typed _ entry =>
    cases horigin
    have hfree : "children" ∉ own (stamp? sc.registry typeName fields form) := fun hown => by
      simpa using mem_own hown
    exact ⟨_, fun p hp => .nested typed children_mem_nestedAttributes hfree entry hp⟩
  | evaluated => cases horigin
  | @handed fields typeName name kind _ _ _ typed special hands value stems =>
    subst horigin
    cases stems with
    | @entry key _ entry plain kept renamed =>
      have hoverlooks : ¬Overlooks sc.registry sc.config fields kind [.entry key] := fun hover =>
        hseen (hover.overlooked typed special (List.prefix_refl _))
      have hname : key = name := by
        by_contra hne
        exact hoverlooks (.renamed fun heq => hne (heq.symm.trans renamed))
      subst hname
      have hlisted : key ∈ nestedAttributes sc.registry typeName fields :=
        mem_nestedAttributes special (hands.listed kept.1 hoverlooks)
      exact ⟨_, fun p hp => .nested typed hlisted (not_mem_own_of_kept kept _) entry hp⟩
  | @slotted fields typeName name _ slots _ typed special unnamed slot stems entry =>
    cases stems with
    | text => cases horigin
    | @entry key _ hslots plain kept renamed =>
      cases horigin
      have hname : key = "slots" := by
        by_contra hne
        have hoverlooks : Overlooks sc.registry sc.config fields .slot [.entry key] :=
          .renamed fun heq => hne (heq.symm.trans renamed)
        exact hseen (hoverlooks.overlooked typed special (List.prefix_append ..))
      subst hname
      have hlisted : "slots" ∈ nestedAttributes sc.registry typeName fields :=
        mem_nestedAttributes special (Special.childAttributes_subset _ _ (by decide))
      change ∃ form', ∀ p, Visited sc.registry form' w p →
        Visited sc.registry form (.object fields) (.entry "slots" :: .entry name :: p)
      cases slots with
      | object inside =>
        cases htype : (Brick.mk inside).typeName? with
        | none =>
          refine ⟨innerForm sc.registry typeName fields form, fun p hp => ?_⟩
          exact .nested typed hlisted (not_mem_own_of_kept kept _) hslots (.entry htype entry hp)
        | some inner =>
          have hnested : name ∈ nestedAttributes sc.registry inner inside ∧ name ∉ bookkeeping := by
            by_contra hnot
            rw [not_and_or, not_not] at hnot
            exact hseen (Overlooks.overlooked (.slots hslots htype hnot) typed special (List.prefix_refl _))
          refine ⟨innerForm sc.registry inner inside (innerForm sc.registry typeName fields form), fun p hp => ?_⟩
          refine .nested typed hlisted (not_mem_own_of_kept kept _) hslots ?_
          refine .nested htype hnested.1 (fun hown => hnested.2 ?_) entry hp
          rcases mem_own hown with rfl | rfl | rfl <;> decide
      | _ => cases entry

/-- The annotation comes to every brick that rendering comes to, unless it overlooks an entry on the way. -/
theorem Comes.visited (h : sc.Comes states layers v p layers' (.object fields))
    (htyped : (Brick.mk fields).typeName? = some typeName) (hseen : ¬Overlooked sc.registry sc.config v p)
    (form : Option String) : Visited sc.registry form v p := by
  generalize hw : Json.object fields = w at h
  induction h generalizing form with
  | here =>
    subst hw
    exact .here htyped
  | @onward _ _ _ _ _ _ way p leads _ ih =>
    have hway : ¬Overlooked sc.registry sc.config _ way := fun ⟨q, front, h⟩ =>
      hseen ⟨q, front, h.imp fun _ h => h.imp fun _ h => h.imp fun _ ⟨hat, ht, hk, ho, hfront⟩ =>
        ⟨hat, ht, hk, ho, hfront.trans (List.prefix_append ..)⟩⟩
    obtain ⟨form', hvisited⟩ := leads.visited hway form
    exact hvisited p (ih (fun hover => hseen (hover.cons leads.at?)) form' hw)

end Scene

open Annotate

/-- In an annotated layout, every brick that rendering comes to has an id and marks just the expressions that it has,
and it has the form around it if it is a field that has come without one. Rendering comes to others only through an
entry that the annotation overlooks. -/
theorem annotate_covers (sc : Scene) (options : Annotate.Options) {layout : Json} (h : layout.wellFormed = true)
    {states : FetchState → Prop} {layers layers' : Layers} {p : Place} {fields : List (String × Json)}
    {typeName : String} (hcomes : sc.Comes states layers (annotate sc.registry options layout) p layers' (.object fields))
    (htyped : (Brick.mk fields).typeName? = some typeName)
    (hseen : ¬Overlooked sc.registry sc.config (annotate sc.registry options layout) p) :
    (∃ id, id ≠ "" ∧ Fields.get? fields "id" = some (.string id)) ∧
    (∃ names, NamesExpressions fields names ∧ Fields.get? fields "_expressions" =
      if names = [] then none else some (.array (names.map .string))) ∧
    ∀ name, LacksForm sc.registry layout p → formAt sc.registry options.formName layout p = some name →
      Fields.get? fields "form" = some (.string name) := by
  have hvisited : Visited sc.registry options.formName layout p :=
    (hcomes.visited htyped hseen options.formName).of_value h
  obtain ⟨old, typeName', ids, hat, hold, htyped', hafter⟩ := hvisited.value_formAt h options ⟨0, collectIds layout⟩
  have hannotated : Annotated sc.registry options typeName' (formAt sc.registry options.formName layout p) old _ :=
    brick_annotated hold _ ids
  have hfields := Json.object.inj (Option.some.inj (hcomes.at?.symm.trans hafter))
  rw [← hfields] at hannotated
  have hnames : (fields.map (·.1)).Nodup := (Json.wellFormed_object_iff.1
    (Json.wellFormed_of_at? (staysWellFormed h options.formName ⟨0, collectIds layout⟩) hcomes.at?)).1
  refine ⟨hannotated.identified, ⟨_, namesExpressions hnames, hannotated.marks.trans (marks?_eq_ite _)⟩, ?_⟩
  intro name hlacks hform
  exact hannotated.stamped name (stamp?_eq_some_iff.2 ⟨(lacksForm_iff hat htyped').1 hlacks, hform⟩)

/-- A form around a loop over one item, in whose template there is a field. -/
def loopedField : Json := .object
  [("type", .string "Form"), ("name", .string "login"),
    ("children", .array [.object [("type", .string "ForEach"), ("items", .array [.bool true]), ("as", .string "x"),
      ("template", .object [("type", .string "If"), ("condition", .bool true),
        ("then", .object [("type", .string "Input"), ("value", .string "\x7bx\x7d")])])]])]

/-- The field, once it is annotated. -/
def coveredField : List (String × Json) :=
  [("type", .string "Input"), ("value", .string "\x7bx\x7d"), ("id", .string "brick-4"),
    ("_expressions", .array [.string "value"]), ("form", .string "login")]

def coveredBranch : List (String × Json) :=
  [("type", .string "If"), ("condition", .bool true), ("then", .object coveredField), ("id", .string "brick-3")]

def coveredLoop : List (String × Json) :=
  [("type", .string "ForEach"), ("items", .array [.bool true]), ("as", .string "x"),
    ("template", .object coveredBranch), ("id", .string "brick-2")]

def coveredForm : List (String × Json) :=
  [("type", .string "Form"), ("name", .string "login"), ("children", .array [.object coveredLoop]),
    ("id", .string "brick-1")]

/-- A scene in which types need not be known. -/
def passingScene : Scene where
  registry := loginRegistry
  config := { passUnknown := true }
  source := none
  transport := false
  answer := none
  root := fun _ => none

theorem comes_loopedField : passingScene.Comes (fun _ => False) [] (.object coveredForm)
    [.entry "children", .item 0, .entry "template", .entry "then"] [[("x", .bool true)]] (.object coveredField) := by
  have hform : (Brick.mk coveredForm).typeName? = some "Form" := by decide
  have hloop : (Brick.mk coveredLoop).typeName? = some "ForEach" := by decide
  have hbranch : (Brick.mk coveredBranch).typeName? = some "If" := by decide
  have hchildren : passingScene.Leads (fun _ => False) [] (.object coveredForm) (some [.entry "children"]) []
      (.array [.object coveredLoop]) := .children hform rfl rfl rfl
  have htemplate : passingScene.Leads (fun _ => False) [] (.object coveredLoop) (some [.entry "template"])
      [[("x", .bool true)]] (.object coveredBranch) :=
    .handed hloop (Special.ofName?_name .forEach) (.template rfl rfl (List.mem_singleton_self (Json.bool true))) rfl
      (.entry rfl rfl (by decide) rfl)
  have hthen : passingScene.Leads (fun _ => False) [[("x", .bool true)]] (.object coveredBranch)
      (some [.entry "then"]) [[("x", .bool true)]] (.object coveredField) :=
    .handed hbranch (Special.ofName?_name .conditional) .branch rfl (.entry rfl rfl (by decide) rfl)
  exact .onward hchildren (.onward (.item rfl) (.onward htemplate (.onward hthen .here)))

theorem annotate_covers_looped : loopedField.wellFormed = true ∧
    passingScene.Comes (fun _ => False) [] (annotate loginRegistry {} loopedField)
      [.entry "children", .item 0, .entry "template", .entry "then"] [[("x", .bool true)]] (.object coveredField) ∧
    ∃ id names, id ≠ "" ∧ Fields.get? coveredField "id" = some (.string id) ∧
      NamesExpressions coveredField names ∧ Fields.get? coveredField "form" = some (.string "login") := by
  have hform : loopedField.wellFormed = true := by decide
  have hannotated : annotate passingScene.registry {} loopedField = .object coveredForm := rfl
  have hcomes : passingScene.Comes (fun _ => False) [] (annotate passingScene.registry {} loopedField)
      [.entry "children", .item 0, .entry "template", .entry "then"] [[("x", .bool true)]] (.object coveredField) := by
    rw [hannotated]
    exact comes_loopedField
  have htyped : (Brick.mk coveredField).typeName? = some "Input" := by decide
  have hseen : ¬Overlooked passingScene.registry passingScene.config (annotate passingScene.registry {} loopedField)
      [.entry "children", .item 0, .entry "template", .entry "then"] := by
    rw [hannotated]
    rintro ⟨q, way, fields, typeName, kind, hat, htyped, hkind, hover, hfront⟩
    have hinside : ∀ s ∈ way, s ∈ [.entry "children", .item 0, .entry "template", .entry "then"] := fun s hs =>
      hfront.subset (List.mem_append_right _ hs)
    have hslotless : ∀ q ∈ List.inits [.entry "children", .item 0, .entry "template", .entry "then"],
        (((Json.object coveredForm).at? q).bind Json.fields?).bind (fun fields =>
          (Brick.mk fields).typeName?.bind Special.ofName?) ≠ some .slot := by decide
    have hslot : kind ≠ .slot := by
      rintro rfl
      refine hslotless q ((List.mem_inits ..).2 ((List.prefix_append ..).trans hfront)) ?_
      rw [hat, Option.bind_some, Json.fields?, Option.bind_some, htyped, Option.bind_some, hkind]
    cases hover with
    | elseif => exact absurd (hinside _ (List.mem_singleton_self _)) (by decide)
    | named => exact hslot rfl
    | slots => exact hslot rfl
    | @renamed _ name renamed =>
      obtain rfl : name = "class" := by
        by_contra hne
        exact renamed (if_neg hne)
      exact absurd (hinside _ (List.mem_singleton_self _)) (by decide)
  obtain ⟨⟨id, hne, hid⟩, ⟨names, hnames, -⟩, hlogin⟩ := annotate_covers passingScene {} hform hcomes htyped hseen
  exact ⟨hform, hcomes, id, names, hne, hid, hnames, hlogin "login" ⟨_, "Input", rfl, by decide, by decide, nofun⟩ rfl⟩

/-- A branch that is shown where neither the condition nor another branch holds. -/
def elseBranching : Json := .object
  [("type", .string "If"), ("condition", .bool false), ("elseif", .object [("type", .string "p")])]

/-- The brick in it is shown, but has no id. -/
theorem annotate_overlooks_elseif : elseBranching.wellFormed = true ∧
    (∃ fields, passingScene.Comes (fun _ => False) [] (annotate loginRegistry {} elseBranching) [.entry "elseif"] []
      (.object fields) ∧ (Brick.mk fields).typeName? = some "p" ∧ Fields.get? fields "id" = none) ∧
    ∃ h s', Host.drawNew Host.depthLimit 0 (annotate {} {} elseBranching) 0 Host.wired = some (h, s') ∧
      (Output.toJsonAll (Mounted.snapshot h.roots)).map (fun v => ((v.get? "tag").bind Json.str?, (v.get? "key").isSome)) =
        [(some "p", false)] := by
  have hannotated : annotate loginRegistry {} elseBranching = .object [("type", .string "If"),
    ("condition", .bool false), ("elseif", .object [("type", .string "p")]), ("id", .string "brick-1")] := rfl
  have htyped : (Brick.mk [("type", .string "If"), ("condition", .bool false),
      ("elseif", .object [("type", .string "p")]), ("id", .string "brick-1")]).typeName? = some "If" := by decide
  have hleads : passingScene.Leads (fun _ => False) [] (annotate loginRegistry {} elseBranching)
      (some [.entry "elseif"]) [] (.object [("type", .string "p")]) := by
    rw [hannotated]
    exact .handed htyped (Special.ofName?_name .conditional) .branch rfl (.entry rfl rfl (by decide) rfl)
  have hrun : (Host.drawNew Host.depthLimit 0 (annotate {} {} elseBranching) 0 Host.wired).any
      (fun e : Host × State => (Output.toJsonAll (Mounted.snapshot e.1.roots)).map
        (fun v => ((v.get? "tag").bind Json.str?, (v.get? "key").isSome)) = [(some "p", false)]) = true := by
    decide +kernel
  obtain ⟨⟨h, s'⟩, hrun, hshown⟩ := (Option.any_eq_true _ _).1 hrun
  exact ⟨by decide, ⟨_, .onward hleads .here, by decide, rfl⟩, h, s', hrun, of_decide_eq_true hshown⟩

end LiveLayout
