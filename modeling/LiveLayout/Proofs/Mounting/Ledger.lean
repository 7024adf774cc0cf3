import LiveLayout.Node
import LiveLayout.Proofs.Store.Subscriptions
import Mathlib.Data.List.Basic
/-!
Which proxies are subscribed where. A ledger says of some mounted components that the subscriptions of a
store are theirs: one for each proxy and each variable that it depends on, at the level where the
variable lives.
-/
namespace LiveLayout

def Subscriber.isProxy : Subscriber → Bool
  | .proxy .. => true
  | .listener _ => false

namespace Component

/-- The subscriber of a component that depends on a name of a level. -/
def subscriberAt? (σ : Store) (k : Nat) (x : String) : Component → Option Subscriber
  | .proxy p => if x ∈ p.depends ∧ σ.owner p.scope x = k then p.subscriber else none
  | _ => none

theorem subscriberAt?_proxy (σ : Store) (k : Nat) (x : String) (p : Proxy) :
    (proxy p).subscriberAt? σ k x =
      if x ∈ p.depends ∧ σ.owner p.scope x = k then p.subscriber else none := rfl

/-- A proxy has the subscriber of its instance, and a scope that exists. -/
def Follows (σ : Store) (i : Instance) : Component → Prop
  | .proxy p => (∃ key, p.subscriber = some (.proxy i key)) ∧ p.scope < σ.levels.size
  | _ => True

variable {σ τ : Store} {i : Instance} {c : Component} {k : Nat} {x : String}

theorem Follows.keep (h : c.Follows σ i) (hστ : σ.KeepsScopes τ) : c.Follows τ i := by
  cases c with
  | proxy p => exact ⟨h.1, hστ.lt_size h.2⟩
  | _ => trivial

theorem Follows.subscriberAt?_keep (h : c.Follows σ i) (hστ : σ.KeepsScopes τ) :
    c.subscriberAt? τ k x = c.subscriberAt? σ k x := by
  cases c with
  | proxy p => simp only [subscriberAt?, hστ.owner_eq h.2]
  | _ => rfl

theorem Follows.instance_eq (h : c.Follows σ i) {who : Subscriber}
    (hw : c.subscriberAt? σ k x = some who) : ∃ key, who = .proxy i key := by
  cases c with
  | proxy p =>
    obtain ⟨⟨key, hs⟩, -⟩ := h
    simp only [subscriberAt?, hs] at hw
    split at hw
    · exact ⟨key, (Option.some.inj hw).symm⟩
    · cases hw
  | _ => cases hw

end Component

/-- The subscriptions of proxies in the store are those of the components. -/
structure Ledger (σ : Store) (cs : List (Instance × Component)) : Prop where
  tidy : σ.Tidy
  nodup : (cs.map (·.1)).Nodup
  follows : ∀ e ∈ cs, e.2.Follows σ e.1
  entries : ∀ k x, ((σ.subscribersAt k x).filter Subscriber.isProxy).Perm
    (cs.filterMap fun e => e.2.subscriberAt? σ k x)

namespace Ledger

variable {σ τ : Store} {cs ds : List (Instance × Component)} {i : Instance} {c d : Component}
  {p : Proxy} {key : Option String}

theorem perm (h : Ledger σ cs) (hp : cs.Perm ds) : Ledger σ ds :=
  ⟨h.tidy, (hp.map _).nodup_iff.1 h.nodup, fun e he => h.follows e (hp.mem_iff.2 he),
    fun k x => (h.entries k x).trans (hp.filterMap _)⟩

/-- Changes that move no scope and no proxy's subscription leave a ledger as it is. -/
theorem frame (h : Ledger σ cs) (hk : σ.KeepsScopes τ) (htidy : τ.Tidy)
    (hsub : ∀ k x, (τ.subscribersAt k x).filter Subscriber.isProxy =
      (σ.subscribersAt k x).filter Subscriber.isProxy) : Ledger τ cs := by
  refine ⟨htidy, h.nodup, fun e he => (h.follows e he).keep hk, fun k x => ?_⟩
  rw [hsub, List.filterMap_congr fun e he => (h.follows e he).subscriberAt?_keep hk]
  exact h.entries k x

theorem extend (h : Ledger σ cs) (hστ : σ.Extends τ) : Ledger τ cs :=
  h.frame hστ.values.keepsScopes (hστ.tidy h.tidy) fun k x => by rw [hστ.subscribers]

/-- The subscriber of an instance that is not in the ledger is nowhere in the store. -/
theorem not_subscribed (h : Ledger σ cs) (hi : i ∉ cs.map (·.1)) (k : Nat) (x : String) :
    Subscriber.proxy i key ∉ σ.subscribersAt k x := by
  intro hmem
  have hin := (h.entries k x).mem_iff.1 (List.mem_filter.2 ⟨hmem, rfl⟩)
  obtain ⟨e, he, hw⟩ := List.mem_filterMap.1 hin
  obtain ⟨key', heq⟩ := (h.follows e he).instance_eq hw
  cases heq
  exact hi (List.mem_map_of_mem he)

/-- A component that follows nothing is added. -/
theorem add (h : Ledger σ cs) (hi : i ∉ cs.map (·.1)) (hc : ∀ p, c ≠ .proxy p) :
    Ledger σ ((i, c) :: cs) := by
  have hnone : ∀ k x, c.subscriberAt? σ k x = none := by
    cases c with
    | proxy p => exact absurd rfl (hc p)
    | _ => exact fun _ _ => rfl
  refine ⟨h.tidy, List.nodup_cons.2 ⟨hi, h.nodup⟩, ?_, fun k x => ?_⟩
  · simp only [List.forall_mem_cons]
    refine ⟨?_, h.follows⟩
    cases c with
    | proxy p => exact absurd rfl (hc p)
    | _ => trivial
  · simpa [hnone k x] using h.entries k x

/-- A component that follows nothing is removed. -/
theorem drop (h : Ledger σ ((i, c) :: cs)) (hc : ∀ p, c ≠ .proxy p) : Ledger σ cs := by
  have hnone : ∀ k x, c.subscriberAt? σ k x = none := by
    cases c with
    | proxy p => exact absurd rfl (hc p)
    | _ => exact fun _ _ => rfl
  refine ⟨h.tidy, (List.nodup_cons.1 h.nodup).2, fun e he => h.follows e (by simp [he]), fun k x => ?_⟩
  simpa [hnone k x] using h.entries k x

/-- A component is replaced by one that follows the same. -/
theorem swap (h : Ledger σ ((i, c) :: cs)) (hd : d.Follows σ i)
    (heq : ∀ k x, d.subscriberAt? σ k x = c.subscriberAt? σ k x) : Ledger σ ((i, d) :: cs) := by
  refine ⟨h.tidy, h.nodup, ?_, fun k x => ?_⟩
  · simp only [List.forall_mem_cons]
    exact ⟨hd, fun e he => h.follows e (by simp [he])⟩
  · have := h.entries k x
    rwa [List.filterMap_cons, ← heq, ← List.filterMap_cons (a := (i, d))
      (f := fun e => e.2.subscriberAt? σ k x)] at this

/-- A new proxy subscribes to what it depends on. -/
theorem subscribe (h : Ledger σ cs) (hi : i ∉ cs.map (·.1)) (hscope : p.scope < σ.levels.size)
    (hp : p.subscriber = some (.proxy i key)) :
    Ledger (σ.subscribeAll p.scope p.depends (.proxy i key)) ((i, .proxy p) :: cs) := by
  have hkeep := (σ.keepsValues_subscribeAll p.scope p.depends (.proxy i key)).keepsScopes
  refine ⟨h.tidy.subscribeAll _ _ _, List.nodup_cons.2 ⟨hi, h.nodup⟩, ?_, fun k x => ?_⟩
  · simp only [List.forall_mem_cons]
    exact ⟨⟨⟨key, hp⟩, hkeep.lt_size hscope⟩, fun e he => (h.follows e he).keep hkeep⟩
  · rw [Store.subscribersAt_subscribeAll hscope, List.filterMap_cons,
      List.filterMap_congr fun e he => (h.follows e he).subscriberAt?_keep hkeep]
    simp only [Component.subscriberAt?_proxy, hkeep.owner_eq hscope, hp]
    have hnot : Subscriber.proxy i key ∉ _ := h.not_subscribed hi k x
    by_cases hw : x ∈ p.depends ∧ σ.owner p.scope x = k
    · rw [if_pos ⟨hw.2, hw.1, hnot⟩, if_pos hw, List.filter_append]
      exact (List.perm_append_comm).trans ((h.entries k x).cons _)
    · rw [if_neg fun hc => hw ⟨hc.2.1, hc.1⟩, if_neg hw]
      exact h.entries k x

/-- A proxy unsubscribes from what it depends on. -/
theorem unsubscribe (h : Ledger σ ((i, .proxy p) :: cs)) (hp : p.subscriber = some (.proxy i key)) :
    Ledger (σ.unsubscribeAll p.scope p.depends (.proxy i key)) cs := by
  have hkeep := (σ.keepsValues_unsubscribeAll p.scope p.depends (.proxy i key)).keepsScopes
  have hscope : p.scope < σ.levels.size := (h.follows _ (List.mem_cons_self ..)).2
  have hi : i ∉ cs.map (·.1) := (List.nodup_cons.1 h.nodup).1
  have hfollows : ∀ e ∈ cs, e.2.Follows σ e.1 := fun e he => h.follows e (by simp [he])
  refine ⟨h.tidy.unsubscribeAll _ _ _, (List.nodup_cons.1 h.nodup).2,
    fun e he => (hfollows e he).keep hkeep, fun k x => ?_⟩
  rw [Store.subscribersAt_unsubscribeAll h.tidy hscope,
    List.filterMap_congr fun e he => (hfollows e he).subscriberAt?_keep hkeep]
  have hentries := h.entries k x
  rw [List.filterMap_cons] at hentries
  simp only [Component.subscriberAt?_proxy, hp] at hentries
  by_cases hw : x ∈ p.depends ∧ σ.owner p.scope x = k
  · rw [if_pos hw] at hentries
    rw [if_pos ⟨hw.2, hw.1⟩, List.filter_filter]
    have hrest : ∀ w ∈ cs.filterMap fun e => e.2.subscriberAt? σ k x, decide (w ≠ .proxy i key) = true := by
      intro w hmem
      obtain ⟨e, he, hw⟩ := List.mem_filterMap.1 hmem
      obtain ⟨key', rfl⟩ := (hfollows e he).instance_eq hw
      simp only [decide_eq_true_eq]
      rintro ⟨⟩
      exact hi (List.mem_map_of_mem he)
    have hfilter := hentries.filter fun w => decide (w ≠ .proxy i key)
    rw [List.filter_filter, List.filter_cons_of_neg (by simp), List.filter_eq_self.2 hrest] at hfilter
    simpa only [Bool.and_comm] using hfilter
  · rw [if_neg hw] at hentries
    rw [if_neg fun hc => hw ⟨hc.2, hc.1⟩]
    exact hentries

end Ledger
end LiveLayout
