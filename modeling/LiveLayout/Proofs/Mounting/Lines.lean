import LiveLayout.Proofs.Mounting.Rounds
import Mathlib.Data.List.Nodup
/-!
How often the components of a tree have rendered, and in which others they lie. Of a tree that has come out of
another one it is said how often whoever is in both has rendered since.
-/
namespace LiveLayout

/-- A component in a tree: its number, the numbers of those it lies in, innermost first, and how often it
has rendered. -/
structure Line where
  id : Nat
  above : List Nat
  renders : Nat

/-- The numbers of a component and of those it lies in. -/
def Line.path (l : Line) : List Nat := l.id :: l.above

namespace Mounted

mutual

/-- The components of a tree that lies in the given components. -/
def lines (above : List Nat) : Mounted → List Line
  | .primitive _ => []
  | .element _ _ _ children => linesAll above children
  | .component id _ _ renders children => ⟨id, above, renders⟩ :: linesAll (id :: above) children
  | .fragment _ children => linesAll above children

def linesAll (above : List Nat) : List Mounted → List Line
  | [] => []
  | m :: rest => m.lines above ++ linesAll above rest

end

theorem linesAll_append (above : List Nat) (ms ns : List Mounted) :
    linesAll above (ms ++ ns) = linesAll above ms ++ linesAll above ns := by
  induction ms with
  | nil => rfl
  | cons m rest ih => rw [List.cons_append, linesAll, linesAll, ih, List.append_assoc]

theorem mem_linesAll {above : List Nat} {ms : List Mounted} {l : Line} :
    l ∈ linesAll above ms ↔ ∃ m ∈ ms, l ∈ m.lines above := by
  induction ms with
  | nil => simp [linesAll]
  | cons m rest ih => simp [linesAll, ih]

mutual

/-- There is one line for each component. -/
theorem map_lines (host : Nat) (above : List Nat) : (m : Mounted) →
    (m.lines above).map (Instance.mk host ·.id) = (m.components host).map (·.1)
  | .primitive _ => rfl
  | .element _ _ _ children => map_linesAll host above children
  | .component id _ _ _ children => by
    rw [lines, components, List.map_cons, List.map_cons, map_linesAll host (id :: above) children]
  | .fragment _ children => map_linesAll host above children

theorem map_linesAll (host : Nat) (above : List Nat) : (ms : List Mounted) →
    (linesAll above ms).map (Instance.mk host ·.id) = (componentsAll host ms).map (·.1)
  | [] => rfl
  | m :: rest => by
    rw [linesAll, componentsAll, List.map_append, List.map_append, map_lines host above m,
      map_linesAll host above rest]

end

theorem mem_ids_iff (host : Nat) (above : List Nat) {ms : List Mounted} {id : Nat} :
    id ∈ (linesAll above ms).map (·.id) ↔ (⟨host, id⟩ : Instance) ∈ (componentsAll host ms).map (·.1) := by
  rw [← map_linesAll host above, List.mem_map, List.mem_map]
  simp only [Instance.mk.injEq, true_and]

mutual

/-- What a line lies in is in the tree with it, or around the tree. -/
theorem mem_above_of_mem_lines {above : List Nat} {l : Line} {j : Nat} : (m : Mounted) →
    l ∈ m.lines above → j ∈ l.above → j ∈ above ∨ j ∈ (m.lines above).map (·.id)
  | .primitive _, hl, _ => nomatch hl
  | .element _ _ _ children, hl, hj => mem_above_of_mem_linesAll children hl hj
  | .component id _ _ _ children, hl, hj => by
    rw [lines, List.map_cons, List.mem_cons]
    rcases List.mem_cons.1 hl with rfl | hl
    · exact .inl hj
    · rcases mem_above_of_mem_linesAll children hl hj with hj | hj
      · exact (List.mem_cons.1 hj).symm.imp_right .inl
      · exact .inr (.inr hj)
  | .fragment _ children, hl, hj => mem_above_of_mem_linesAll children hl hj

theorem mem_above_of_mem_linesAll {above : List Nat} {l : Line} {j : Nat} : (ms : List Mounted) →
    l ∈ linesAll above ms → j ∈ l.above → j ∈ above ∨ j ∈ (linesAll above ms).map (·.id)
  | [], hl, _ => nomatch hl
  | m :: rest, hl, hj => by
    rw [linesAll, List.map_append, List.mem_append]
    rcases List.mem_append.1 hl with hl | hl
    · exact (mem_above_of_mem_lines m hl hj).imp_right .inl
    · exact (mem_above_of_mem_linesAll rest hl hj).imp_right .inr

end

mutual

/-- Whatever is around a tree is around all of it. -/
theorem mem_above_of_mem {above : List Nat} {l : Line} {j : Nat} (hj : j ∈ above) : (m : Mounted) →
    l ∈ m.lines above → j ∈ l.above
  | .primitive _, hl => nomatch hl
  | .element _ _ _ children, hl => mem_above_of_mem_all hj children hl
  | .component id _ _ _ children, hl => by
    rcases List.mem_cons.1 hl with rfl | hl
    · exact hj
    · exact mem_above_of_mem_all (List.mem_cons_of_mem id hj) children hl
  | .fragment _ children, hl => mem_above_of_mem_all hj children hl

theorem mem_above_of_mem_all {above : List Nat} {l : Line} {j : Nat} (hj : j ∈ above) :
    (ms : List Mounted) → l ∈ linesAll above ms → j ∈ l.above
  | [], hl => nomatch hl
  | m :: rest, hl => (List.mem_append.1 hl).elim (mem_above_of_mem hj m) (mem_above_of_mem_all hj rest)

end

theorem nodup_ids (host : Nat) {above : List Nat} {ms : List Mounted}
    (h : ((componentsAll host ms).map (·.1)).Nodup) : ((linesAll above ms).map (·.id)).Nodup := by
  have hmap : (linesAll above ms).map (Instance.mk host ·.id) =
      ((linesAll above ms).map (·.id)).map (Instance.mk host) := by
    rw [List.map_map]
    rfl
  rw [← map_linesAll host above, hmap] at h
  exact List.Nodup.of_map _ h

mutual

/-- No path leads through a component twice. -/
theorem nodup_path {above : List Nat} (habove : above.Nodup) : (m : Mounted) →
    ((m.lines above).map (·.id)).Nodup → (∀ j ∈ above, j ∉ (m.lines above).map (·.id)) →
    ∀ l ∈ m.lines above, l.path.Nodup
  | .primitive _, _, _, _, hl => nomatch hl
  | .element _ _ _ children, hn, hd, l, hl => nodup_path_all habove children hn hd l hl
  | .component id _ _ renders children, hn, hd, l, hl => by
    rw [lines, List.map_cons] at hn hd
    obtain ⟨hid, hn⟩ := List.nodup_cons.1 hn
    have hnot : id ∉ above := fun hmem => hd id hmem (List.mem_cons_self ..)
    have hinner : (id :: above).Nodup := List.nodup_cons.2 ⟨hnot, habove⟩
    rcases List.mem_cons.1 hl with rfl | hl
    · exact hinner
    · refine nodup_path_all hinner children hn (fun j hj => ?_) l hl
      rcases List.mem_cons.1 hj with rfl | hj
      · exact hid
      · exact fun hmem => hd j hj (List.mem_cons_of_mem _ hmem)
  | .fragment _ children, hn, hd, l, hl => nodup_path_all habove children hn hd l hl

theorem nodup_path_all {above : List Nat} (habove : above.Nodup) : (ms : List Mounted) →
    ((linesAll above ms).map (·.id)).Nodup → (∀ j ∈ above, j ∉ (linesAll above ms).map (·.id)) →
    ∀ l ∈ linesAll above ms, l.path.Nodup
  | [], _, _, _, hl => nomatch hl
  | m :: rest, hn, hd, l, hl => by
    rw [linesAll, List.map_append] at hn hd
    obtain ⟨hm, hrest, -⟩ := List.nodup_append.1 hn
    rcases List.mem_append.1 hl with hl | hl
    · exact nodup_path habove m hm (fun j hj hmem => hd j hj (List.mem_append_left _ hmem)) l hl
    · exact nodup_path_all habove rest hrest (fun j hj hmem => hd j hj (List.mem_append_right _ hmem)) l hl

end

end Mounted

/-- Every line of the new tree has a number after the given one, or stands where it stood in the old tree, and
its component has rendered so often again. -/
def Regrown (last : Nat) (again : List Nat → Nat) (old new : List Line) : Prop :=
  ∀ l ∈ new, last < l.id ∨ ∃ r, ⟨l.id, l.above, r⟩ ∈ old ∧ l.renders = r + again l.path

namespace Regrown

variable {last : Nat} {f g : List Nat → Nat} {old old' mid new new' : List Line}

theorem of_young (h : ∀ l ∈ new, last < l.id) : Regrown last f old new := fun l hl => .inl (h l hl)

theorem nil : Regrown last f old [] := of_young nofun

theorem of_eq_zero (h : ∀ l ∈ old, f l.path = 0) : Regrown last f old old :=
  fun l hl => .inr ⟨l.renders, hl, by rw [h l hl, Nat.add_zero]⟩

theorem append (h : Regrown last f old new) (h' : Regrown last f old new') :
    Regrown last f old (new ++ new') := fun l hl => (List.mem_append.1 hl).elim (h l) (h' l)

theorem mono (h : Regrown last f old new) (hold : ∀ l ∈ old, l ∈ old') : Regrown last f old' new := by
  intro l hl
  refine (h l hl).imp_right ?_
  rintro ⟨r, hr, heq⟩
  exact ⟨r, hold _ hr, heq⟩

theorem cons (h : Regrown last f old new) (id : Nat) (above : List Nat) (r : Nat) :
    Regrown last f (⟨id, above, r⟩ :: old) (⟨id, above, r + f (id :: above)⟩ :: new) := by
  intro l hl
  rcases List.mem_cons.1 hl with rfl | hl
  · exact .inr ⟨r, List.mem_cons_self .., rfl⟩
  · exact h.mono (fun _ => List.mem_cons_of_mem _) l hl

theorem congr (h : Regrown last f old new) (hfg : ∀ l ∈ new, l.id ≤ last → g l.path = f l.path) :
    Regrown last g old new := by
  intro l hl
  rw [or_iff_not_imp_left]
  intro hlt
  obtain ⟨r, hr, heq⟩ := (h l hl).resolve_left hlt
  exact ⟨r, hr, by rw [heq, hfg l hl (Nat.not_lt.1 hlt)]⟩

theorem trans (h : Regrown last f old mid) (h' : Regrown last g mid new) :
    Regrown last (fun p => f p + g p) old new := by
  intro l hl
  rcases h' l hl with hlt | ⟨r', hr', heq'⟩
  · exact .inl hlt
  · refine (h _ hr').imp_right ?_
    rintro ⟨r, hr, heq⟩
    have hmid : r' = r + f l.path := heq
    exact ⟨r, hr, by rw [heq', hmid, Nat.add_assoc]⟩

end Regrown

namespace Mounted

variable {host last : Nat}

/-! ### Replacing a component -/

section

variable {id : Nat} {old next : Mounted}

/-- Where a component is neither in a tree nor around it, nothing in the tree lies in it. -/
theorem not_mem_path {above : List Nat} {ms : List Mounted} {l : Line} (habove : id ∉ above)
    (hid : (⟨host, id⟩ : Instance) ∉ (componentsAll host ms).map (·.1)) (hl : l ∈ linesAll above ms) :
    id ∉ l.path := by
  rw [← mem_ids_iff host above] at hid
  rw [Line.path, List.mem_cons, not_or]
  refine ⟨?_, fun hmem => (mem_above_of_mem_linesAll ms hl hmem).elim habove hid⟩
  rintro rfl
  exact hid (List.mem_map_of_mem hl)

/-- Everything in a component lies in it. -/
theorem mem_path_of_component {above : List Nat} {key : Option String} {c : Component} {renders : Nat}
    {children : List Mounted} {l : Line} (hl : l ∈ (component id key c renders children).lines above) :
    id ∈ l.path := by
  rcases List.mem_cons.1 hl with rfl | hl
  · exact List.mem_cons_self ..
  · exact List.mem_cons_of_mem _ (mem_above_of_mem_all (List.mem_cons_self ..) children hl)

variable {again : List Nat → Nat}

mutual

/-- What lies in a component that is replaced grows as that does; all else stays. -/
theorem replace_regrown (hnext : ∀ above, Regrown last again (old.lines above) (next.lines above))
    (hrest : ∀ path, id ∉ path → again path = 0) {above : List Nat} (habove : id ∉ above) : (m : Mounted) →
    ((m.components host).map (·.1)).Nodup → m.find? id = some old →
    Regrown last again (m.lines above) ((replace id next m).lines above)
  | .primitive _, _, h => nomatch h
  | .element _ _ _ children, hn, h => replaceAll_regrown hnext hrest habove children hn h
  | .component i _ _ renders children, hn, h => by
    rw [find?] at h
    split at h
    · obtain rfl := Option.some.inj h
      rw [replace, if_pos ‹_›]
      exact hnext above
    · rename_i hne
      have hids : id ∉ i :: above := by
        rw [List.mem_cons, not_or]
        exact ⟨fun heq => hne heq.symm, habove⟩
      have hchildren := (replaceAll_regrown hnext hrest hids children (List.nodup_cons.1 hn).2 h).cons i above renders
      rw [hrest _ hids, Nat.add_zero] at hchildren
      rw [replace, if_neg hne]
      exact hchildren
  | .fragment _ children, hn, h => replaceAll_regrown hnext hrest habove children hn h

theorem replaceAll_regrown (hnext : ∀ above, Regrown last again (old.lines above) (next.lines above))
    (hrest : ∀ path, id ∉ path → again path = 0) {above : List Nat} (habove : id ∉ above) :
    (ms : List Mounted) → ((componentsAll host ms).map (·.1)).Nodup → findAll? id ms = some old →
    Regrown last again (linesAll above ms) (linesAll above (replaceAll id next ms))
  | [], _, h => nomatch h
  | m :: ms, hn, h => by
    rw [componentsAll, List.map_append, List.nodup_append] at hn
    obtain ⟨hm, hms, hne⟩ := hn
    -- Whatever does not hold the component stays as it is.
    have still {ns : List Mounted} (hnone : (⟨host, id⟩ : Instance) ∉ (componentsAll host ns).map (·.1)) :
        Regrown last again (linesAll above ns) (linesAll above ns) :=
      .of_eq_zero fun l hl => hrest _ (not_mem_path habove hnone hl)
    rw [findAll?] at h
    rw [replaceAll, linesAll, linesAll]
    cases hfind : m.find? id with
    | some found =>
      have hfound : found = old := by simpa [hfind] using h
      rw [hfound] at hfind
      have hnone : (⟨host, id⟩ : Instance) ∉ (componentsAll host ms).map (·.1) := fun hmem =>
        hne _ (mem_of_find? m hfind) _ hmem rfl
      have hgone : findAll? id ms = none := by
        by_contra hsome
        obtain ⟨other, hother⟩ := Option.ne_none_iff_exists'.1 hsome
        exact hnone (mem_of_findAll? ms hother)
      rw [replaceAll_of_findAll?_eq_none ms hgone]
      refine .append ?_ ((still hnone).mono fun _ => List.mem_append_right _)
      exact (replace_regrown hnext hrest habove m hm hfind).mono fun _ => List.mem_append_left _
    | none =>
      rw [hfind, Option.none_or] at h
      have hnone : (⟨host, id⟩ : Instance) ∉ (componentsAll host [m]).map (·.1) := by
        rw [componentsAll_singleton]
        exact not_mem_of_find?_eq_none m hfind
      have hstill := still hnone
      rw [linesAll, linesAll, List.append_nil] at hstill
      rw [replace_of_find?_eq_none m hfind]
      refine .append (hstill.mono fun _ => List.mem_append_left _) ?_
      exact (replaceAll_regrown hnext hrest habove ms hms h).mono fun _ => List.mem_append_right _

end

end
end Mounted
end LiveLayout
