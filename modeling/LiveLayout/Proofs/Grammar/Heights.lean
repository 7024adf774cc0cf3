import LiveLayout.Proofs.Dotted.Lexemes
import LiveLayout.Proofs.Expr
import LiveLayout.Proofs.Grammar.Soundness
/-!
How deep expressions are nested. The limit on nesting bounds the ways into an expression up to the steps to the
left, to the object of an access and to the left operand of an operator: of these a text may hold any number.
-/
namespace LiveLayout.Expr

mutual

/-- How many nodes the longest way into an expression has. -/
def height : Expr → Nat
  | .literal _ => 1
  | .ident _ => 1
  | .member object _ => object.height + 1
  | .index object position => max object.height position.height + 1
  | .array items => heightAll items + 1
  | .unary _ operand => operand.height + 1
  | .binary _ left right => max left.height right.height + 1
  | .conditional condition yes no => max condition.height (max yes.height no.height) + 1

def heightAll : List Expr → Nat
  | [] => 0
  | e :: rest => max e.height (heightAll rest)

end

mutual

/-- How many nodes a way into an expression has at most, where steps to the left do not count. -/
def depth : Expr → Nat
  | .literal _ => 1
  | .ident _ => 1
  | .member object _ => object.depth
  | .index object position => max object.depth (position.depth + 1)
  | .array items => depthAll items + 1
  | .unary _ operand => operand.depth + 1
  | .binary _ left right => max left.depth (right.depth + 1)
  | .conditional condition yes no => max condition.depth (max yes.depth no.depth) + 1

def depthAll : List Expr → Nat
  | [] => 0
  | e :: rest => max e.depth (depthAll rest)

end

/-- How many nodes follow one another to the left. -/
def spine : Expr → Nat
  | .member object _ => object.spine + 1
  | .index object _ => object.spine + 1
  | .binary _ left _ => left.spine + 1
  | _ => 1

theorem spine_pos (e : Expr) : 0 < e.spine := by
  unfold spine
  split <;> omega

theorem self_mem_nodes (e : Expr) : e ∈ e.nodes := by
  cases e <;> simp [nodes]

/-! ### The height is at most the depth times the longest spine -/

section

variable {longest : Nat}

-- A step to the left makes the spine one longer, any other step makes the depth one larger and starts a new spine.
mutual

theorem height_add_le : (e : Expr) → (∀ s ∈ e.nodes, s.spine ≤ longest) →
    e.height + longest ≤ e.spine + longest * e.depth
  | .literal _, _ => by simp [height, spine, depth]
  | .ident _, _ => by simp [height, spine, depth]
  | .member object _, h => by
    have hobject := height_add_le object fun s hs => h s (by simp [nodes, hs])
    simp only [height, spine, depth]
    omega
  | .index object position, h => by
    have hobject := height_add_le object fun s hs => h s (by simp [nodes, hs])
    have hposition := height_le_mul position fun s hs => h s (by simp [nodes, hs])
    have hpos := object.spine_pos
    simp only [height, spine, depth, Nat.mul_add_one, ← Nat.mul_max_mul_left]
    omega
  | .array items, h => by
    have hitems := heightAll_le_mul items fun s hs => h s (by simp [nodes, hs])
    simp only [height, spine, depth, Nat.mul_add_one]
    omega
  | .unary _ operand, h => by
    have hoperand := height_le_mul operand fun s hs => h s (by simp [nodes, hs])
    simp only [height, spine, depth, Nat.mul_add_one]
    omega
  | .binary _ left right, h => by
    have hleft := height_add_le left fun s hs => h s (by simp [nodes, hs])
    have hright := height_le_mul right fun s hs => h s (by simp [nodes, hs])
    have hpos := left.spine_pos
    simp only [height, spine, depth, Nat.mul_add_one, ← Nat.mul_max_mul_left]
    omega
  | .conditional condition yes no, h => by
    have hcondition := height_le_mul condition fun s hs => h s (by simp [nodes, hs])
    have hyes := height_le_mul yes fun s hs => h s (by simp [nodes, hs])
    have hno := height_le_mul no fun s hs => h s (by simp [nodes, hs])
    simp only [height, spine, depth, Nat.mul_add_one, ← Nat.mul_max_mul_left]
    omega

theorem height_le_mul (e : Expr) (h : ∀ s ∈ e.nodes, s.spine ≤ longest) : e.height ≤ longest * e.depth := by
  have hadd := height_add_le e h
  have hself := h e e.self_mem_nodes
  omega

theorem heightAll_le_mul : (items : List Expr) → (∀ s ∈ nodesAll items, s.spine ≤ longest) →
    heightAll items ≤ longest * depthAll items
  | [], _ => Nat.zero_le _
  | e :: rest, h => by
    have he := height_le_mul e fun s hs => h s (by simp [nodesAll, hs])
    have hrest := heightAll_le_mul rest fun s hs => h s (by simp [nodesAll, hs])
    simp only [heightAll, depthAll, ← Nat.mul_max_mul_left]
    omega

end

end

/-! ### The depth of a phrase -/

namespace Grammar

/-- How much deeper than eight for each level of nesting a phrase of a kind may be: operators join to the right once
at each strength. -/
def slack : Kind → Nat
  | .conditional => 0
  | .joined k => 8 - k
  | _ => 1

theorem Derives.depth_le {c : Kind} {ts : List Token} {e : Expr} {d : Nat} (h : Derives c ts e d) :
    e.depth ≤ 8 * d + slack c := by
  induction h with
  | join _ operator _ ih₁ ih₂ =>
    have hbounds := operator.bounds
    simp only [slack, depth] at *
    omega
  | atom single => cases single <;> simp [depth, slack]
  | _ =>
    simp only [slack, depth, depthAll] at *
    omega

end Grammar

/-! ### Accepted texts -/

theorem parse_eq_ok {src : String} {e : Expr} (h : parse src = .ok e) :
    ∃ ls, scan src = .ok ls ∧ Parse.ofLexemes ls = .ok e := by
  unfold parse at h
  cases hscan : scan src with
  | error cause =>
    rw [hscan] at h
    cases h
  | ok ls =>
    rw [hscan] at h
    exact ⟨ls, rfl, h⟩

/-- An expression that a text is has at most eight nodes for each level of nesting that is allowed on any way into it,
not counting the steps to the left; so its height is at most that many times its longest spine. -/
theorem parse_height {src : String} {e : Expr} (h : parse src = .ok e) :
    e.depth ≤ 8 * Parse.maxNesting ∧
      ∀ longest, (∀ s ∈ e.nodes, s.spine ≤ longest) → e.height ≤ longest * (8 * Parse.maxNesting) := by
  obtain ⟨ls, -, hread⟩ := parse_eq_ok h
  obtain ⟨-, rest, hconditional, -⟩ := Parse.ofLexemes_eq_ok.1 hread
  obtain ⟨front, d, -, hd, hphrase⟩ := (Grammar.conditional_sound Parse.maxNesting).1 _ _ _ hconditional
  have hdepth : e.depth ≤ 8 * Parse.maxNesting := Nat.le_trans hphrase.depth_le (Nat.mul_le_mul_left 8 hd)
  refine ⟨hdepth, fun longest hlongest => ?_⟩
  exact Nat.le_trans (height_le_mul e hlongest) (Nat.mul_le_mul_left longest hdepth)

/-- `a[b] + c.d` -/
theorem parse_height_sum : ∃ e, parse "a[b] + c.d" = .ok e ∧ e.depth ≤ 8 * Parse.maxNesting ∧
    e.height ≤ 3 * (8 * Parse.maxNesting) := by
  have hparse : parse "a[b] + c.d" =
      .ok (.binary .add (.index (.ident "a") (.ident "b")) (.member (.ident "c") "d")) := by cbv
  obtain ⟨hdepth, hheight⟩ := parse_height hparse
  refine ⟨_, hparse, hdepth, hheight 3 ?_⟩
  simp [nodes, spine]

theorem height_foldl_member (fields : List String) (e : Expr) :
    (fields.foldl .member e).height = e.height + fields.length := by
  induction fields generalizing e with
  | nil => rfl
  | cons field rest ih =>
    rw [List.foldl_cons, ih, height, List.length_cons]
    omega

/-- Members of members are as high as one likes. -/
theorem parse_height_unbounded :
    ¬∃ bound : Nat → Nat, ∀ src e, parse src = .ok e → e.height ≤ bound Parse.maxNesting := by
  rintro ⟨bound, hbound⟩
  let segments := List.replicate (bound Parse.maxNesting) "a"
  have hname : Path.isName "a" = true := by decide
  have hsegments : ∀ s ∈ segments, Path.IsSegment s := by
    intro s hs
    rw [List.eq_of_mem_replicate hs]
    exact .inl hname
  have hapart : Path.Apart segments := by
    refine List.Pairwise.isChain (List.pairwise_replicate.2 (.inr ?_))
    exact fun h => Path.not_isPosition_of_isName hname h.1
  have hparse := parse_intercalate hname (by decide) hsegments hapart
  have hheight := hbound _ _ hparse
  rw [height_foldl_member, List.length_map, List.length_replicate, height] at hheight
  omega

end LiveLayout.Expr
