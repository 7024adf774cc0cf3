import LiveLayout.Engine.Cascade
import LiveLayout.Proofs.Engine.Steps
/-!
Chronicles of cascades, whatever the listeners do when they are told. A write is recorded with all rounds of telling
that were under way then, and everyone who is told is recorded with the round. With listeners that follow their
scripts, keeping a chronicle changes nothing.
-/
namespace LiveLayout

open Engine

/-- A round of telling the value that a variable has at its level, and who is still to be told. -/
structure Round where
  level : Scope
  name : String
  value : Json
  left : List Subscriber

/-- The round tells of the variable of the level. -/
def Round.Of (r : Round) (level : Scope) (name : String) : Prop := r.level = level ∧ r.name = name

instance (r : Round) (level : Scope) (name : String) : Decidable (r.Of level name) :=
  inferInstanceAs (Decidable (_ ∧ _))

inductive Chronicle.Entry where
  /-- A write, the round that it starts, and the rounds under way. -/
  | written (round : Round) (underway : List Round)
  /-- A subscriber is told, and the rest of the round is still to come. -/
  | told (who : Subscriber) (round : Round)

/-- What happened, in order. -/
abbrev Chronicle := List Chronicle.Entry

namespace Chronicle

abbrev Writer := Scope → String → Json → Engine Chronicle

end Chronicle

/-! ### Reactions -/

/-- What a listener does when it is told a value, one thing after the other. It may look at everything meanwhile. -/
inductive Reaction where
  | done
  | look (next : State → Reaction)
  | write (scope : Scope) (path : String) (value : Json) (next : Reaction)
  | subscribe (scope : Scope) (name : String) (who : Subscriber) (next : Reaction)
  | unsubscribe (scope : Scope) (name : String) (who : Subscriber) (next : Reaction)

/-- What each listener does with a value of a variable. -/
abbrev Reactions := String → String → Json → Reaction

namespace Reaction

/-- First the action of a script. -/
def after (args : List Json) (a : Action) (next : Reaction) : Reaction :=
  if a.applies args then
    .look fun s => match Fields.get? s.scopes a.scope with
      | none => next
      | some scope => match a.effect with
        | .write path value => .write scope path value next
        | .writeArgument path index => .write scope path (args[index]?.getD .null) next
        | .subscribe listener name => .subscribe scope name (.listener listener) next
        | .unsubscribe listener name => .unsubscribe scope name (.listener listener) next
  else next

/-- All listeners follow their scripts. -/
def scripted : Reactions := fun who _ value =>
  .look fun s => ((Fields.get? s.listeners who).getD []).foldr (after [value]) .done

def perform (writer : Chronicle.Writer) : Reaction → Engine Chronicle
  | done => return []
  | look next => do perform writer (next (← get))
  | write scope path value next => do
    let first ← writer scope path value
    let more ← perform writer next
    return first ++ more
  | subscribe scope name who next => do
    modifyStore (·.subscribe scope name who)
    perform writer next
  | unsubscribe scope name who next => do
    modifyStore (·.unsubscribe scope name who)
    perform writer next

end Reaction

/-! ### Cascades -/

namespace Chronicle

variable (react : Reactions)

/-- Tells a subscriber, where `round` is what is left of the round. -/
def notify (writer : Writer) (round : Round) : Subscriber → Engine Chronicle
  | .proxy target key => do
    trace (.invalidated key round.name)
    invalidate target
    return [.told (.proxy target key) round]
  | .listener who => do
    emit (.notify who round.name round.value)
    let log ← (react who round.name round.value).perform writer
    return .told (.listener who) round :: log

/-- Tells the subscribers of a round. While one of them is told, the round is under way. -/
def notifyAll (writer : List Round → Writer) (underway : List Round) (level : Scope) (name : String)
    (value : Json) : List Subscriber → Engine Chronicle
  | [] => return []
  | who :: left => do
    let round : Round := ⟨level, name, value, left⟩
    let first ← notify react (writer (round :: underway)) round who
    let more ← notifyAll writer underway level name value left
    return first ++ more

/-- Writes a value, where writes may set off writes as deep as the number says. The rounds under way are those that
this write is part of, the innermost first. -/
def setValue : Nat → List Round → Writer
  | 0, _ => fun _ _ _ => endless
  | depth + 1, underway => fun scope path value => do
    match Path.segments path with
    | [] =>
      log .emptyPath
      return []
    | root :: rest =>
      let store := (← get).store
      let owner := store.owner scope root
      log (.written path value (((store.level? owner).map Level.label).getD ""))
      modifyStore (·.write scope root rest value)
      let store := (← get).store
      let current := (store.valueAt? owner root).getD .null
      let all := store.subscribersAt owner root
      let told ← notifyAll react (setValue depth) underway owner root current all
      return .written ⟨owner, root, current, all⟩ underway :: told

/-! ### Keeping a chronicle changes nothing -/

/-- The first step does what the second does, and keeps a chronicle. -/
def Records (x : Engine Chronicle) (y : Engine Unit) : Prop := ∀ s, y s = (x s).map fun r => ((), r.2)

namespace Records

variable {x x' : Engine Chronicle} {y y' : Engine Unit}

theorem nil : Records (pure []) (pure ()) := fun _ => rfl

theorem endless : Records Engine.endless Engine.endless := fun _ => rfl

/-- What goes before is the same on both sides. -/
theorem after {α : Type} (z : Engine α) {f : α → Engine Chronicle} {g : α → Engine Unit}
    (h : ∀ a, Records (f a) (g a)) : Records (z >>= f) (z >>= g) := by
  intro s
  rw [bind_run, bind_run]
  cases z s with
  | none => rfl
  | some r => exact h r.1 r.2

theorem silent (y : Engine Unit) (log : Chronicle) : Records (y >>= fun _ => pure log) y := by
  intro s
  rw [bind_run]
  cases y s with
  | none => rfl
  | some r => rfl

theorem map (h : Records x y) (f : Chronicle → Chronicle) : Records (x >>= fun log => pure (f log)) y := by
  intro s
  rw [h s, bind_run]
  cases x s with
  | none => rfl
  | some r => rfl

theorem append (h : Records x y) (h' : Records x' y') :
    Records (x >>= fun first => x' >>= fun more => pure (first ++ more)) (y >>= fun _ => y') := by
  intro s
  rw [bind_run, bind_run, h s]
  cases x s with
  | none => rfl
  | some r => exact h'.map (r.1 ++ ·) r.2

end Records

section

variable {writer : Writer} {writer' : Engine.Writer}

theorem after_records (h : ∀ scope path value, Records (writer scope path value) (writer' scope path value))
    (args : List Json) (a : Action) {next : Reaction} {y : Engine Unit} (hnext : Records (next.perform writer) y) :
    Records ((next.after args a).perform writer) (Engine.perform writer' args a >>= fun _ => y) := by
  unfold Reaction.after Engine.perform
  split
  · rw [bind_assoc]
    apply Records.after
    intro s
    dsimp only
    cases Fields.get? s.scopes a.scope with
    | none => exact hnext
    | some scope =>
      cases a.effect with
      | write path value => exact (h scope path value).append hnext
      | writeArgument path index => exact (h scope path _).append hnext
      | subscribe listener name => exact .after _ fun _ => hnext
      | unsubscribe listener name => exact .after _ fun _ => hnext
  · exact hnext

theorem script_records (h : ∀ scope path value, Records (writer scope path value) (writer' scope path value))
    (args : List Json) (script : List Action) :
    Records ((script.foldr (Reaction.after args) .done).perform writer) (script.forM (Engine.perform writer' args)) := by
  induction script with
  | nil => exact .nil
  | cons a rest ih => exact after_records h args a ih

theorem notify_records (h : ∀ scope path value, Records (writer scope path value) (writer' scope path value))
    (round : Round) (who : Subscriber) :
    Records (notify .scripted writer round who) (Engine.notify writer' round.name round.value who) := by
  cases who with
  | proxy target key =>
    apply Records.after
    intro _
    exact .silent (invalidate target) _
  | listener who =>
    apply Records.after
    intro _
    have hscripted : Records ((Reaction.scripted who round.name round.value).perform writer)
        (get >>= fun s => ((Fields.get? s.listeners who).getD []).forM (Engine.perform writer' [round.value])) :=
      .after get fun s => script_records h [round.value] _
    exact hscripted.map (.told (.listener who) round :: ·)

theorem notifyAll_records {writer : List Round → Writer}
    (h : ∀ underway scope path value, Records (writer underway scope path value) (writer' scope path value))
    (underway : List Round) (level : Scope) (name : String) (value : Json) (all : List Subscriber) :
    Records (notifyAll .scripted writer underway level name value all) (all.forM (Engine.notify writer' name value)) := by
  induction all with
  | nil => exact .nil
  | cons who left ih => exact (notify_records (h _) ⟨level, name, value, left⟩ who).append ih

end

/-- With listeners that follow their scripts, this is the cascade, and every one that comes to an end has a chronicle. -/
theorem setValue_records (depth : Nat) (underway : List Round) (scope : Scope) (path : String) (value : Json) :
    Records (setValue .scripted depth underway scope path value) (Engine.setValue depth scope path value) := by
  induction depth generalizing underway scope path value with
  | zero => exact .endless
  | succ depth ih =>
    unfold setValue Engine.setValue
    cases Path.segments path with
    | nil => exact .silent (log .emptyPath) []
    | cons root rest =>
      apply Records.after
      intro s
      dsimp only
      apply Records.after
      intro _
      apply Records.after
      intro _
      apply Records.after
      intro t
      exact (notifyAll_records ih underway _ _ _ _).map _

end Chronicle
end LiveLayout
