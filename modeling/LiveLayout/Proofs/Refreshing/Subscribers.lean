import LiveLayout.Proofs.Refreshing.Mounts
import LiveLayout.Proofs.Running.Incremental
/-!
How many are subscribed to a variable of a root. That depends on what can be seen of the mounted components and of
the forks that they stand in, and so is the same after they have been refreshed.
-/
namespace LiveLayout

open Mounted

/-- A name lives at a root for those over it who see no fork that binds the name. -/
theorem Store.owner_eq_root_iff {σ : Store} {k : Nat} (hroot : σ.IsRoot k) (scope : Nat) (x : String) :
    σ.owner scope x = k ↔ σ.root scope = k ∧ ∀ bindings ∈ σ.layers scope, Fields.has bindings x = false := by
  induction scope using Nat.strongRecOn with
  | ind scope ih =>
    cases hlevel : σ.level? scope with
    | none =>
      rw [owner, root, layers]
      simp [hlevel]
    | some level =>
      cases hparent : level.parent with
      | none => simp [owner_root hlevel hparent, root_root hlevel hparent, layers_root hlevel hparent]
      | some parent =>
        -- A level with a parent is no root, so the name lives beneath it.
        have hne : scope ≠ k := by
          rintro rfl
          obtain ⟨_, hlevel', hnone⟩ := hroot
          cases hlevel.symm.trans hlevel'
          cases hparent.symm.trans hnone
        by_cases hlt : parent < scope
        · rw [owner_fork hlevel hparent hlt, root_fork hlevel hparent hlt, layers_fork hlevel hparent hlt,
            List.forall_mem_cons]
          cases Fields.has level.values x with
          | true => simp [hne]
          | false => simp [ih parent hlt]
        · rw [owner, root]
          simp [hlevel, hparent, hlt, hne]

namespace Component

variable {σ : Store} {i : Nat} {tr : Bool} {root : Scope} {c : Component} {k : Nat} {x : String} {layers : Layers}

/-- Whether a component depends on a name that none of the layers binds. -/
def heeds (layers : Layers) (x : String) : Component → Bool
  | .proxy p => p.depends.contains x && layers.all fun bindings => !Fields.has bindings x
  | _ => false

theorem heeds_bare (layers : Layers) (x : String) (c : Component) : c.bare.heeds layers x = c.heeds layers x := by
  cases c <;> rfl

theorem isSome_subscriberAt? (hroot : σ.IsRoot k) {self : Instance} (h : c.Follows σ self)
    (hw : Within σ i tr root c) :
    (c.subscriberAt? σ k x).isSome = (decide (root = k) && c.heeds (c.layers σ) x) := by
  obtain ⟨scope, -, hscope, hat⟩ := hw
  cases c with
  | proxy p =>
    obtain ⟨⟨key, hsub⟩, -⟩ := h
    obtain ⟨-, rfl, -⟩ := hat
    rw [Bool.eq_iff_iff]
    simp [subscriberAt?, heeds, Component.layers, Store.owner_eq_root_iff hroot, hscope, hsub, and_left_comm]
  | _ => simp [subscriberAt?, heeds]

end Component

section

variable {s s' : State} {m m' : Mount} {ms : List Mount} {host i : Nat} {tr : Bool} {root : Scope} {k : Nat}
  {x : String}

/-- How many of the mounted components are subscribed can be seen from their marks. -/
theorem Mounted.length_subscribers (hroot : s.store.IsRoot k) {ns : List Mounted}
    (h : ∀ e ∈ componentsAll host ns, Enrolled s i tr root e) :
    ((componentsAll host ns).filterMap fun e => e.2.subscriberAt? s.store k x).length =
      (marks s.store host ns).countP fun e => decide (root = k) && e.2.2.heeds e.2.1 x := by
  rw [List.length_filterMap_eq_countP, marks, List.countP_map]
  refine List.countP_congr fun e he => ?_
  obtain ⟨⟨hwithin, -⟩, hfollows⟩ := h e he
  rw [Component.isSome_subscriberAt? hroot hfollows hwithin, Function.comp, Component.heeds_bare]

/-- Each name of a root has as many subscribers after one of the layouts has been refreshed. -/
theorem Steady.subscriberCount_refreshed {sc : Scene} {depth : Nat} (h : Steady (m :: ms) s) (h' : Steady (m' :: ms) s')
    (hid : m'.host.id = m.host.id)
    (he : ∀ e ∈ m.components, Enrolled s i sc.transport root e)
    (hl : Refreshed m.host.id i root sc depth s m.host.roots m'.host.roots s') (hroot : s.store.IsRoot k) :
    s'.store.subscriberCount k x = s.store.subscriberCount k x := by
  have hkeep := hl.unshaken.keeps.values.keepsScopes
  have hroot' : s'.store.IsRoot k := hroot.keep hkeep
  have owner {σ : Store} (hσ : σ.IsRoot k) : σ.owner k x = k :=
    (Store.owner_eq_root_iff hσ k x).2 ⟨hσ.root_eq, by rw [hσ.layers_eq]; exact nofun⟩
  have proxies {s : State} {n : Mount} (hn : Steady (n :: ms) s) :
      ((s.store.subscribersAt k x).filter (·.isProxy)).length =
        (n.components.filterMap fun e => e.2.subscriberAt? s.store k x).length +
          ((mountedComponents ms).filterMap fun e => e.2.subscriberAt? s.store k x).length := by
    rw [(hn.ledger.entries k x).length_eq, mountedComponents, List.flatMap_cons, List.filterMap_append,
      List.length_append]
    rfl
  -- The layout's own components are subscribed as their marks say, and the others as they were.
  have hown : (m'.components.filterMap fun e => e.2.subscriberAt? s'.store k x).length =
      (m.components.filterMap fun e => e.2.subscriberAt? s.store k x).length := by
    unfold Mount.components
    rw [hid, length_subscribers hroot' hl.enrolled, length_subscribers hroot he, hl.marks]
  have hothers : ((mountedComponents ms).filterMap fun e => e.2.subscriberAt? s'.store k x) =
      (mountedComponents ms).filterMap fun e => e.2.subscriberAt? s.store k x :=
    List.filterMap_congr fun e he =>
      (h.ledger.follows e (List.mem_append_right _ he)).subscriberAt?_keep hkeep
  unfold Store.subscriberCount
  rw [owner hroot', owner hroot, List.length_eq_length_filter_add (·.isProxy), hl.unshaken.listeners,
    proxies h', hown, hothers, ← proxies h, ← List.length_eq_length_filter_add]

end
end LiveLayout
