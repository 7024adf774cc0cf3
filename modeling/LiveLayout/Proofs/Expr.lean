import LiveLayout.Expr.Eval
import Mathlib.Data.List.Basic
import Mathlib.Tactic.Common
/-!
The variables that an expression collects are all that it reads, each once, in the order in which they occur.
-/
namespace LiveLayout.Expr

mutual

/-- What was collected before stays. -/
theorem subset_collect (seen : List String) : (e : Expr) → seen ⊆ e.collect seen
  | .literal _ => List.Subset.refl _
  | .ident name => by
    unfold collect
    split
    · exact List.Subset.refl _
    · exact List.subset_append_left ..
  | .member object _ => subset_collect seen object
  | .index object position =>
    List.Subset.trans (subset_collect seen object) (subset_collect _ position)
  | .array items => subset_collectItems seen items
  | .unary _ operand => subset_collect seen operand
  | .binary _ left right => List.Subset.trans (subset_collect seen left) (subset_collect _ right)
  | .conditional condition yes no => by
    have hcondition := subset_collect seen condition
    have hyes := subset_collect (condition.collect seen) yes
    have hno := subset_collect (yes.collect (condition.collect seen)) no
    exact fun x hx => hno (hyes (hcondition hx))

theorem subset_collectItems (seen : List String) : (items : List Expr) → seen ⊆ collectItems seen items
  | [] => List.Subset.refl _
  | e :: rest => List.Subset.trans (subset_collect seen e) (subset_collectItems _ rest)

end

section

variable {lookup lookup' : String → Option Json}

mutual

/-- An expression has the same value wherever the variables that it collects have the same values. -/
theorem evaluate_congr (seen : List String) :
    (e : Expr) → (∀ x ∈ e.collect seen, lookup' x = lookup x) → e.evaluate lookup' = e.evaluate lookup
  | .literal _, _ => rfl
  | .ident name, h => by
    have hmem : name ∈ (ident name).collect seen := by
      unfold collect
      split
      · assumption
      · exact List.mem_append_right _ (List.mem_singleton_self _)
    rw [evaluate, evaluate, h name hmem]
  | .member object field, h => by rw [evaluate, evaluate, evaluate_congr seen object h]
  | .index object position, h => by
    have hobject := evaluate_congr seen object fun x hx => h x (subset_collect _ position hx)
    have hposition := evaluate_congr _ position h
    rw [evaluate, evaluate, hobject, hposition]
  | .array items, h => by rw [evaluate, evaluate, evaluateItems_congr seen items h]
  | .unary op operand, h => by rw [evaluate, evaluate, evaluate_congr seen operand h]
  | .binary op left right, h => by
    have hleft := evaluate_congr seen left fun x hx => h x (subset_collect _ right hx)
    have hright := evaluate_congr _ right h
    cases op <;> simp only [evaluate, hleft, hright]
  | .conditional condition yes no, h => by
    have hyes := subset_collect (condition.collect seen) yes
    have hno := subset_collect (yes.collect (condition.collect seen)) no
    rw [evaluate, evaluate, evaluate_congr seen condition fun x hx => h x (hno (hyes hx)),
      evaluate_congr _ yes fun x hx => h x (hno hx), evaluate_congr _ no h]

theorem evaluateItems_congr (seen : List String) : (items : List Expr) →
    (∀ x ∈ collectItems seen items, lookup' x = lookup x) →
    evaluateItems lookup' items = evaluateItems lookup items
  | [], _ => rfl
  | e :: rest, h => by
    have he := evaluate_congr seen e fun x hx => h x (subset_collectItems _ rest hx)
    have hrest := evaluateItems_congr _ rest h
    rw [evaluateItems, evaluateItems, he, hrest]

end

end

/-! ### The names in an expression -/

mutual

/-- An expression with all its parts, each before its own parts and these from left to right. -/
def nodes : Expr → List Expr
  | .literal v => [.literal v]
  | .ident name => [.ident name]
  | .member object field => .member object field :: object.nodes
  | .index object position => .index object position :: (object.nodes ++ position.nodes)
  | .array items => .array items :: nodesAll items
  | .unary op operand => .unary op operand :: operand.nodes
  | .binary op left right => .binary op left right :: (left.nodes ++ right.nodes)
  | .conditional condition yes no =>
    .conditional condition yes no :: (condition.nodes ++ (yes.nodes ++ no.nodes))

def nodesAll : List Expr → List Expr
  | [] => []
  | e :: rest => e.nodes ++ nodesAll rest

end

/-- The name that an expression is. -/
def name? : Expr → Option String
  | .ident name => some name
  | _ => none

/-- The names among some parts, as often as they occur. -/
def names (parts : List Expr) : List String := parts.filterMap name?

theorem mem_names {parts : List Expr} {x : String} : x ∈ names parts ↔ .ident x ∈ parts := by
  rw [names, List.mem_filterMap]
  constructor
  · rintro ⟨e, he, hname⟩
    cases e <;> cases hname
    exact he
  · intro h
    exact ⟨_, h, rfl⟩

theorem names_append (front back : List Expr) : names (front ++ back) = names front ++ names back :=
  List.filterMap_append

/-- The same names, each once, in the order in which they first occur. -/
structure FirstSeen (all seen : List String) : Prop where
  mem : ∀ x, x ∈ seen ↔ x ∈ all
  order : seen.Pairwise fun x y => all.idxOf x < all.idxOf y

theorem FirstSeen.nodup {all seen : List String} (h : FirstSeen all seen) : seen.Nodup :=
  h.order.imp fun hlt heq => Nat.ne_of_lt hlt (congrArg all.idxOf heq)

theorem FirstSeen.collect_name {all seen : List String} (h : FirstSeen all seen) (name : String) :
    FirstSeen (all ++ [name]) ((ident name).collect seen) := by
  have hkeep : seen.Pairwise fun x y => (all ++ [name]).idxOf x < (all ++ [name]).idxOf y := by
    refine h.order.imp_of_mem fun {x y} hx hy hlt => ?_
    rwa [List.idxOf_append_of_mem ((h.mem x).1 hx), List.idxOf_append_of_mem ((h.mem y).1 hy)]
  by_cases hname : name ∈ seen
  · rw [collect, if_pos hname]
    refine ⟨fun x => ?_, hkeep⟩
    rw [List.mem_append, List.mem_singleton, h.mem]
    refine ⟨.inl, fun hx => ?_⟩
    rcases hx with hx | rfl
    · exact hx
    · exact (h.mem x).1 hname
  · rw [collect, if_neg hname]
    refine ⟨fun x => ?_, List.pairwise_append.2 ⟨hkeep, List.pairwise_singleton .., fun x hx y hy => ?_⟩⟩
    · rw [List.mem_append, List.mem_append, h.mem]
    · obtain rfl := List.mem_singleton.1 hy
      have hall : y ∉ all := fun hy => hname ((h.mem y).2 hy)
      rw [List.idxOf_append_of_mem ((h.mem x).1 hx), List.idxOf_append_of_notMem hall]
      exact Nat.lt_add_right _ (List.idxOf_lt_length_of_mem ((h.mem x).1 hx))

mutual

theorem FirstSeen.collect {all seen : List String} (h : FirstSeen all seen) :
    (e : Expr) → FirstSeen (all ++ names e.nodes) (e.collect seen)
  | .literal v => by
    have hnone : names (literal v).nodes = [] := rfl
    rw [hnone, List.append_nil]
    exact h
  | .ident name => h.collect_name name
  | .member object field => h.collect object
  | .index object position => by
    have hparts : names (index object position).nodes = names object.nodes ++ names position.nodes :=
      names_append ..
    rw [hparts, ← List.append_assoc]
    exact (h.collect object).collect position
  | .array items => h.collectItems items
  | .unary op operand => h.collect operand
  | .binary op left right => by
    have hparts : names (binary op left right).nodes = names left.nodes ++ names right.nodes := names_append ..
    rw [hparts, ← List.append_assoc]
    exact (h.collect left).collect right
  | .conditional condition yes no => by
    have hparts : names (conditional condition yes no).nodes =
        names condition.nodes ++ (names yes.nodes ++ names no.nodes) := by
      rw [← names_append, ← names_append]
      rfl
    rw [hparts, ← List.append_assoc, ← List.append_assoc]
    exact ((h.collect condition).collect yes).collect no

theorem FirstSeen.collectItems {all seen : List String} (h : FirstSeen all seen) :
    (items : List Expr) → FirstSeen (all ++ names (nodesAll items)) (collectItems seen items)
  | [] => by
    have hnone : names (nodesAll []) = [] := rfl
    rw [hnone, List.append_nil]
    exact h
  | e :: rest => by
    rw [nodesAll, names_append, ← List.append_assoc]
    exact (h.collect e).collectItems rest

end

theorem firstSeen_identifiers (e : Expr) : FirstSeen (names e.nodes) e.identifiers := by
  have hempty : FirstSeen [] [] := ⟨fun _ => Iff.rfl, .nil⟩
  exact hempty.collect e

/-- The variables collected from an expression are the names in it, each once, in the order in which they first
occur; and they are all that its value, or the error that it ends in, depends on. -/
theorem identifiers_dependencies (e : Expr) :
    e.identifiers.Nodup ∧ (∀ x, x ∈ e.identifiers ↔ .ident x ∈ e.nodes) ∧
      (e.identifiers.Pairwise fun x y => (names e.nodes).idxOf x < (names e.nodes).idxOf y) ∧
      ∀ lookup lookup' : String → Option Json, (∀ x ∈ e.identifiers, lookup' x = lookup x) →
        e.evaluate lookup' = e.evaluate lookup := by
  have hseen := firstSeen_identifiers e
  refine ⟨hseen.nodup, fun x => ?_, hseen.order, fun lookup lookup' h => evaluate_congr [] e h⟩
  rw [hseen.mem, mem_names]

/-- `b[a] ? c : b` -/
example : (conditional (index (ident "b") (ident "a")) (ident "c") (ident "b")).identifiers = ["b", "a", "c"] := by
  decide

end LiveLayout.Expr
