import LiveLayout.Proofs.Lifecycle.Residents
/-!
What calls of hooks leave behind: which of them mounted an instance, and what the instances of a tree rendered
last.
-/
namespace LiveLayout.Lifecycle

variable {W C N : Type} {F : Family W C N} {m m' m'' : Machine W} {calls : List (Nat × Call)}

/-! ### Calls of mount -/

/-- A call that mounts a component, with the machine before and after. -/
structure Mounting (F : Family W C N) where
  id : Nat
  key : Option String
  component : C
  mounted : C
  before : Machine W
  after : Machine W
  run : (F.mount key id component).call id (fun _ => .mount) before = some (mounted, after)

/-- The instances that the calls mount. -/
def mountedIds (calls : List (Nat × Call)) : List Nat :=
  calls.filterMap fun (id, call) => if call = .mount then some id else none

/-- From one machine to the other, just these calls mount components. -/
structure Mounts (mounts : List (Mounting F)) (m m' : Machine W) : Prop where
  log : ∃ new, m'.log = m.log ++ new ∧ mountedIds (new.filterMap Entry.call?) = mounts.map Mounting.id
  during : ∀ x ∈ mounts, m.log <+: x.before.log ∧ x.after.log <+: m'.log

namespace Mounts

variable {mounts mounts' : List (Mounting F)}

theorem of_append {new : List Entry} (hlog : m'.log = m.log ++ new)
    (hnew : mountedIds (new.filterMap Entry.call?) = []) : Mounts ([] : List (Mounting F)) m m' :=
  ⟨⟨new, hlog, hnew⟩, nofun⟩

theorem of_log (h : m'.log = m.log) : Mounts ([] : List (Mounting F)) m m' := by
  have hlog : m'.log = m.log ++ [] := by rw [h, List.append_nil]
  exact of_append hlog rfl

theorem trans (h : Mounts mounts m m') (h' : Mounts mounts' m' m'') : Mounts (mounts ++ mounts') m m'' := by
  obtain ⟨new, hlog, hids⟩ := h.log
  obtain ⟨new', hlog', hids'⟩ := h'.log
  refine ⟨⟨new ++ new', ?_, ?_⟩, fun x hx => ?_⟩
  · rw [hlog', hlog, List.append_assoc]
  · rw [List.filterMap_append, List.map_append, ← hids, ← hids']
    exact List.filterMap_append
  · rcases List.mem_append.1 hx with hx | hx
    · exact ⟨(h.during x hx).1, (h.during x hx).2.trans ⟨new', hlog'.symm⟩⟩
    · exact ⟨List.IsPrefix.trans ⟨new, hlog.symm⟩ (h'.during x hx).1, (h'.during x hx).2⟩

theorem of_makes (h : Makes calls m m') (hcalls : mountedIds calls = []) :
    Mounts ([] : List (Mounting F)) m m' := by
  obtain ⟨new, hlog, rfl, -⟩ := h.log
  exact of_append hlog hcalls

theorem single (x : Mounting F) : Mounts [x] x.before x.after := by
  obtain ⟨new, hlog, hcalls, -⟩ := (Hook.call_makes x.run).log
  refine ⟨⟨new, hlog, ?_⟩, fun y hy => ?_⟩
  · rw [hcalls]
    rfl
  · rw [List.mem_singleton.1 hy]
    exact ⟨List.prefix_rfl, List.prefix_rfl⟩

end Mounts

/-! ### What has been rendered -/

/-- What the resident says is what its instance rendered last. -/
def Resident.Latest (F : Family W C N) (e : Resident W C N) (m : Machine W) : Prop :=
  ∃ depth renders key after new, (F.render depth renders key e.id e.component).call e.id (fun _ => .render) e.before =
    some ((e.component, e.nodes), after) ∧ m.log = after.log ++ new ∧ .called e.id .render ∉ new

theorem Resident.Latest.after {e : Resident W C N} {new : List Entry} (h : e.Latest F m)
    (hlog : m'.log = m.log ++ new) (hnot : .called e.id .render ∉ new) : e.Latest F m' := by
  obtain ⟨depth, renders, key, after, before, hrun, hbefore, hlast⟩ := h
  refine ⟨depth, renders, key, after, before ++ new, hrun, ?_, ?_⟩
  · rw [hlog, hbefore, List.append_assoc]
  · simp [hlast, hnot]

/-- The residents are different instances, and what each of them says is what it rendered last. -/
structure Enrolled (F : Family W C N) (es : List (Resident W C N)) (m : Machine W) : Prop where
  nodup : (es.map Resident.id).Nodup
  issued : ∀ e ∈ es, e.id ≤ m.lastId
  latest : ∀ e ∈ es, e.Latest F m

namespace Enrolled

variable {es fs : List (Resident W C N)} {e : Resident W C N}

theorem perm (h : Enrolled F es m) (hp : es.Perm fs) : Enrolled F fs m := by
  have hmem (e : Resident W C N) : e ∈ fs ↔ e ∈ es := hp.mem_iff.symm
  refine ⟨(hp.map _).nodup_iff.1 h.nodup, ?_, ?_⟩ <;> simp only [hmem]
  · exact h.issued
  · exact h.latest

theorem tail (h : Enrolled F (e :: es) m) : Enrolled F es m :=
  ⟨(List.nodup_cons.1 h.nodup).2, fun x hx => h.issued x (List.mem_cons_of_mem _ hx),
    fun x hx => h.latest x (List.mem_cons_of_mem _ hx)⟩

theorem after {new : List Entry} (h : Enrolled F es m) (hlog : m'.log = m.log ++ new) (hlast : m.lastId ≤ m'.lastId)
    (hnot : ∀ e ∈ es, .called e.id .render ∉ new) : Enrolled F es m' :=
  ⟨h.nodup, fun e he => Nat.le_trans (h.issued e he) hlast, fun e he => (h.latest e he).after hlog (hnot e he)⟩

theorem makes (h : Enrolled F es m) (hmakes : Makes calls m m') (hnot : ∀ e ∈ es, (e.id, Call.render) ∉ calls) :
    Enrolled F es m' := by
  obtain ⟨new, hlog, rfl, -⟩ := hmakes.log
  refine h.after hlog (Nat.le_of_eq hmakes.lastId.symm) fun e he hmem => hnot e he ?_
  exact List.mem_filterMap.2 ⟨_, hmem, rfl⟩

/-- An instance among others has rendered again. -/
theorem render {depth id : Nat} {renders : Option Nat} {key : Option String} {c : C} {nodes : List N}
    (hid : id ∉ es.map Resident.id) (hissued : id ≤ m.lastId) (h : Enrolled F es m)
    (hrun : (F.render depth renders key id c).call id (fun _ => .render) m = some ((c, nodes), m')) :
    Enrolled F (⟨id, c, nodes, m⟩ :: es) m' := by
  have hmakes := Hook.call_makes hrun
  have hrest : Enrolled F es m' := by
    refine h.makes hmakes fun e he hmem => hid ?_
    rw [← (Prod.mk.inj (List.mem_singleton.1 hmem)).1]
    exact List.mem_map_of_mem he
  refine ⟨List.nodup_cons.2 ⟨hid, h.nodup⟩, List.forall_mem_cons.2 ⟨?_, hrest.issued⟩,
    List.forall_mem_cons.2 ⟨?_, hrest.latest⟩⟩
  · rw [hmakes.lastId]
    exact hissued
  · exact ⟨depth, renders, key, m', [], hrun, (List.append_nil _).symm, List.not_mem_nil⟩

end Enrolled
end LiveLayout.Lifecycle
