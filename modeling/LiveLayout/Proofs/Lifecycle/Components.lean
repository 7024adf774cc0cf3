import LiveLayout.Proofs.Mounting.Hooks
/-!
What becomes of a component when it is mounted and when it receives another description of itself.
-/
namespace LiveLayout

open Engine

namespace Component

def isFetch : Component → Bool
  | .fetch _ => true
  | _ => false

theorem isFetch_iff {c : Component} : c.isFetch = true ↔ ∃ f, c = .fetch f := by
  cases c <;> simp [isFetch]

/-- The component is what another one describes, but for what it has kept since it was mounted. -/
def Resembles : Component → Component → Prop
  | .proxy p, .proxy q =>
    p.sameBrick q = true ∧ p = { q with dynamic := p.dynamic, depends := p.depends, subscriber := p.subscriber }
  | .fetch f, .fetch g => f = { g with transport := f.transport }
  | .probe p kids, .probe q kids' => p = { q with name := p.name } ∧ kids = kids'
  | c, d => c = d

theorem resembles_refl (c : Component) : c.Resembles c := by
  cases c <;> simp [Resembles, Proxy.sameBrick]

theorem mount_resembles (c : Component) (self : Instance) (s : State) :
    Ensures (c.mount self) s fun c' _ => c'.isFetch = c.isFetch ∧ c'.Resembles c := by
  cases c with
  | proxy p =>
    refine .bind (Q := fun p' _ => p' = { p with subscriber := some (.proxy self p.key) }) ?_ ?_
    · exact .bind (fun _ _ _ => trivial) fun _ _ _ => .bind (fun _ _ _ => trivial) fun _ _ _ => .pure rfl
    · rintro _ s' rfl
      exact .pure ⟨rfl, by simp [Resembles, Proxy.sameBrick]⟩
  | fetch f => exact .bind (fun _ _ _ => trivial) fun _ _ _ => .pure ⟨rfl, resembles_refl _⟩
  | probe p kids =>
    exact .bind (fun _ _ _ => trivial) fun _ _ _ => .bind (fun _ _ _ => trivial) fun _ _ _ =>
      .pure ⟨rfl, resembles_refl _⟩
  | _ => exact .pure ⟨rfl, resembles_refl _⟩

theorem receive?_resembles (c next : Component) (s : State) :
    Ensures (c.receive? next) s fun r _ => ∀ c', r = some c' → c'.isFetch = c.isFetch ∧ c'.Resembles next := by
  have refused {t : State} : Ensures (pure none : Engine (Option Component)) t
      fun r _ => ∀ c', r = some c' → c'.isFetch = c.isFetch ∧ c'.Resembles next := .pure nofun
  cases c with
  | proxy p =>
    cases next with
    | proxy q =>
      refine .bind (Q := fun r _ => ∀ p', r = some p' → p.sameBrick q = true ∧ p' = p.turned q) ?_ ?_
      · unfold Proxy.receive?
        split
        · exact .pure nofun
        · have hsame : p.sameBrick q = true := by simpa using ‹¬(!p.sameBrick q) = true›
          have accepted {t : State} : Ensures (pure (some (p.turned q)) : Engine (Option Proxy)) t
              fun r _ => ∀ p', r = some p' → p.sameBrick q = true ∧ p' = p.turned q :=
            .pure fun p' hp' => ⟨hsame, (Option.some.inj hp').symm⟩
          dsimp only
          split
          · exact .bind (fun _ _ _ => trivial) fun _ _ _ => .bind (fun _ _ _ => trivial) fun _ _ _ => accepted
          · exact accepted
      · intro r t hr
        refine .pure fun c' hc' => ?_
        obtain ⟨p', rfl, rfl⟩ := Option.map_eq_some_iff.1 hc'
        obtain ⟨hsame, rfl⟩ := hr p' rfl
        simp only [Proxy.sameBrick, Bool.and_eq_true] at hsame
        exact ⟨rfl, by simpa [Resembles, Proxy.sameBrick, Proxy.turned] using hsame.2⟩
    | _ => exact refused
  | fetch f =>
    cases next with
    | fetch g => exact .pure fun c' hc' => by cases hc'; exact ⟨rfl, rfl⟩
    | _ => exact refused
  | probe p kids =>
    unfold receive?
    dsimp only
    split
    · exact .bind (fun _ _ _ => trivial) fun _ _ _ => refused
    · cases next with
      | probe q kids' =>
        refine .bind (fun _ _ _ => trivial) fun _ _ _ => .pure fun c' hc' => ?_
        cases hc'
        exact ⟨rfl, rfl, rfl⟩
      | _ => exact .bind (fun _ _ _ => trivial) fun _ _ _ => refused
  | conditional props =>
    cases next with
    | conditional _ => exact .pure fun c' hc' => by cases hc'; exact ⟨rfl, rfl⟩
    | _ => exact refused
  | forEach props =>
    cases next with
    | forEach _ => exact .pure fun c' hc' => by cases hc'; exact ⟨rfl, rfl⟩
    | _ => exact refused
  | slot props =>
    cases next with
    | slot _ => exact .pure fun c' hc' => by cases hc'; exact ⟨rfl, rfl⟩
    | _ => exact refused
  | plain kids => exact refused

end Component

end LiveLayout
