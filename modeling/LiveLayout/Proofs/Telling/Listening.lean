import LiveLayout.Proofs.Forms.Handlers
import LiveLayout.Proofs.Telling.Chronicle
/-!
Cascades in which whoever is told writes nothing in turn. Then the write from outside is the only one, its round tells
every subscriber in order, and the variables stay as the write has left them.
-/
namespace LiveLayout

open Engine

/-! ### What only listens -/

/-- The reaction writes nothing, whatever it finds, as long as the scripts of the listeners are the given ones. -/
def Reaction.Mute (listeners : List (String × List Action)) : Reaction → Prop
  | .done => True
  | .look next => ∀ s : State, s.listeners = listeners → (next s).Mute listeners
  | .write .. => False
  | .subscribe _ _ _ next => next.Mute listeners
  | .unsubscribe _ _ _ next => next.Mute listeners

/-- Nobody writes who is told a value. -/
def Reactions.OnlyListen (react : Reactions) (listeners : List (String × List Action)) : Prop :=
  ∀ who name value, (react who name value).Mute listeners

theorem Reaction.after_mute {listeners : List (String × List Action)} {a : Action} {next : Reaction}
    (ha : a.effect.writes = false) (hnext : next.Mute listeners) (args : List Json) :
    (next.after args a).Mute listeners := by
  unfold after
  split
  · intro s _
    dsimp only
    cases Fields.get? s.scopes a.scope with
    | none => exact hnext
    | some scope =>
      cases heffect : a.effect with
      | write path value => simp [heffect, Effect.writes] at ha
      | writeArgument path index => simp [heffect, Effect.writes] at ha
      | subscribe who name => exact hnext
      | unsubscribe who name => exact hnext
  · exact hnext

theorem Reactions.scripted_onlyListen {s : State} (hs : s.OnlyListens) :
    Reactions.OnlyListen Reaction.scripted s.listeners := by
  intro who name value t ht
  dsimp only
  rw [ht]
  have hscript : Passive ((Fields.get? s.listeners who).getD []) := by
    cases hwho : Fields.get? s.listeners who with
    | none => exact fun _ h => absurd h List.not_mem_nil
    | some script => exact hs _ (Fields.mem_of_get? hwho)
  generalize (Fields.get? s.listeners who).getD [] = script at hscript
  induction script with
  | nil => trivial
  | cons a rest ih =>
    have hrest : Passive rest := fun b hb => hscript b (List.mem_cons_of_mem _ hb)
    exact Reaction.after_mute (hscript a (List.mem_cons_self ..)) (ih hrest) [value]

/-- Variables and listeners are as they were, and no level is new. -/
structure Heard (s s' : State) : Prop extends Unwritten s s' where
  size : s'.store.levels.size = s.store.levels.size

theorem Heard.refl (s : State) : Heard s s := ⟨.refl s, rfl⟩

theorem Heard.trans {s s' s'' : State} (h : Heard s s') (h' : Heard s' s'') : Heard s s'' :=
  ⟨h.toUnwritten.trans h'.toUnwritten, h'.size.trans h.size⟩

/-- The round that a write of a value below a variable starts. -/
def Round.starting (σ : Store) (scope : Scope) (root : String) (rest : List String) (value : Json) : Round :=
  let level := σ.owner scope root
  let written := σ.write scope root rest value
  ⟨level, root, (written.valueAt? level root).getD .null, written.subscribersAt level root⟩

namespace Chronicle

variable {react : Reactions} {underway : List Round} {level scope : Scope} {name path root : String}
  {rest : List String} {value : Json} {listeners : List (String × List Action)} {s : State}

/-- Nobody writes. -/
def Quiet (log : Chronicle) : Prop := ∀ e ∈ log, ∃ who round, e = .told who round

/-- A round that nobody answers. -/
def tellings (level : Scope) (name : String) (value : Json) : List Subscriber → Chronicle
  | [] => []
  | who :: left => .told who ⟨level, name, value, left⟩ :: tellings level name value left

/-! ### Where nobody wrote -/

/-- If nobody wrote in the steps, they told nobody either and left the variables. -/
def Idle (x : Engine Chronicle) : Prop := ∀ s, Ensures x s fun log s' => log.Quiet → log = [] ∧ Heard s s'

theorem not_quiet_written {round : Round} {log : Chronicle} : ¬Quiet (.written round underway :: log) := by
  intro hquiet
  obtain ⟨who, r, heq⟩ := hquiet _ (List.mem_cons_self ..)
  cases heq

theorem Quiet.left {log more : Chronicle} (h : Quiet (log ++ more)) : Quiet log :=
  fun e he => h e (List.mem_append_left _ he)

theorem Quiet.right {log more : Chronicle} (h : Quiet (log ++ more)) : Quiet more :=
  fun e he => h e (List.mem_append_right _ he)

theorem setValue_idle (react : Reactions) (depth : Nat) (underway : List Round) (scope : Scope) (path : String)
    (value : Json) : Idle (setValue react depth underway scope path value) := by
  intro s
  cases depth with
  | zero => exact .endless
  | succ depth =>
    unfold setValue
    cases Path.segments path with
    | nil =>
      refine Ensures.bind_run (log_run _ s) (.pure fun _ => ?_)
      exact ⟨rfl, ⟨.refl _, rfl⟩, rfl⟩
    | cons root rest =>
      refine Ensures.bind_run (get_run s) ?_
      refine Ensures.bind_run (log_run _ s) ?_
      refine Ensures.bind_run (modifyStore_run _ _) ?_
      refine Ensures.bind_run (get_run _) ?_
      refine Ensures.bind (Q := fun _ _ => True) (fun _ _ _ => trivial) fun told s' _ => .pure fun hquiet => ?_
      exact absurd hquiet not_quiet_written

theorem perform_idle {writer : Writer} (h : ∀ scope path value, Idle (writer scope path value)) (r : Reaction) :
    Idle (r.perform writer) := by
  induction r with
  | done => exact fun s => .pure fun _ => ⟨rfl, .refl s⟩
  | look next ih => exact fun s => Ensures.bind_run (get_run s) (ih s s)
  | write scope path value next ih =>
    intro s
    refine Ensures.bind (h scope path value s) fun first s₁ hfirst => ?_
    refine Ensures.bind (ih s₁) fun more s₂ hmore => .pure fun hquiet => ?_
    obtain ⟨rfl, hs₁⟩ := hfirst hquiet.left
    obtain ⟨rfl, hs₂⟩ := hmore hquiet.right
    exact ⟨rfl, hs₁.trans hs₂⟩
  | subscribe scope name who next ih =>
    intro s
    have hheard : Heard s { s with store := s.store.subscribe scope name who } :=
      ⟨⟨s.store.keepsValues_subscribe scope name who, rfl⟩, Store.size_subscribe ..⟩
    refine Ensures.bind_run (modifyStore_run _ s) ((ih _).mono fun log s' hlog hquiet => ?_)
    obtain ⟨hnil, hs'⟩ := hlog hquiet
    exact ⟨hnil, hheard.trans hs'⟩
  | unsubscribe scope name who next ih =>
    intro s
    have hheard : Heard s { s with store := s.store.unsubscribe scope name who } :=
      ⟨⟨s.store.keepsValues_unsubscribe scope name who, rfl⟩, Store.size_unsubscribe ..⟩
    refine Ensures.bind_run (modifyStore_run _ s) ((ih _).mono fun log s' hlog hquiet => ?_)
    obtain ⟨hnil, hs'⟩ := hlog hquiet
    exact ⟨hnil, hheard.trans hs'⟩

theorem notify_quiet {writer : Writer} (h : ∀ scope path value, Idle (writer scope path value)) (round : Round)
    (who : Subscriber) (s : State) : Ensures (notify react writer round who) s fun log s' =>
      log.Quiet → log = [.told who round] ∧ Heard s s' := by
  cases who with
  | proxy target key =>
    obtain ⟨notices, htrace⟩ := trace_run (.invalidated key round.name) s
    refine Ensures.bind_run htrace ?_
    exact Ensures.bind_run (a := ()) rfl (.pure fun _ => ⟨rfl, ⟨.refl _, rfl⟩, rfl⟩)
  | listener who =>
    refine Ensures.bind_run (emit_run _ s) ?_
    refine Ensures.bind (perform_idle h _ _) fun log s' hlog => .pure fun hquiet => ?_
    have hrest : Quiet log := fun e he => hquiet e (List.mem_cons_of_mem _ he)
    obtain ⟨rfl, hs'⟩ := hlog hrest
    have hemit : Heard s { s with events := .notify who round.name round.value :: s.events } := ⟨⟨.refl _, rfl⟩, rfl⟩
    exact ⟨rfl, hemit.trans hs'⟩

theorem notifyAll_quiet {writer : List Round → Writer}
    (h : ∀ underway scope path value, Idle (writer underway scope path value)) (underway : List Round) (level : Scope)
    (name : String) (value : Json) (all : List Subscriber) (s : State) :
    Ensures (notifyAll react writer underway level name value all) s fun log s' =>
      log.Quiet → log = tellings level name value all ∧ Heard s s' := by
  induction all generalizing s with
  | nil => exact .pure fun _ => ⟨rfl, .refl s⟩
  | cons who left ih =>
    refine Ensures.bind (notify_quiet (h _) ⟨level, name, value, left⟩ who s) fun first s₁ hfirst => ?_
    refine Ensures.bind (ih s₁) fun more s₂ hmore => .pure fun hquiet => ?_
    obtain ⟨rfl, hs₁⟩ := hfirst hquiet.left
    obtain ⟨rfl, hs₂⟩ := hmore hquiet.right
    exact ⟨rfl, hs₁.trans hs₂⟩

/-- A write, before anyone is told of it. -/
def written (s : State) (scope : Scope) (path root : String) (rest : List String) (value : Json) : State :=
  let label := ((s.store.level? (s.store.owner scope root)).map Level.label).getD ""
  { s with store := s.store.write scope root rest value, notices := .written path value label :: s.notices }

theorem setValue_run (react : Reactions) (depth : Nat) (underway : List Round) (scope : Scope)
    (hpath : Path.segments path = root :: rest) (value : Json) (s : State) :
    setValue react (depth + 1) underway scope path value s =
      let round := Round.starting s.store scope root rest value
      (notifyAll react (setValue react depth) underway round.level root round.value round.left
        (written s scope path root rest value)).map fun r => (.written round underway :: r.1, r.2) := by
  unfold setValue
  rw [hpath, Option.map_eq_bind]
  rfl

/-- A write is recorded first. If nobody who is told of it writes in turn, everyone is told the new value in the order
of subscription, and all variables are as they have been written. -/
theorem setValue_quiet (react : Reactions) (depth : Nat) (underway : List Round) (scope : Scope)
    (hpath : Path.segments path = root :: rest) (value : Json) (s : State) :
    Ensures (setValue react (depth + 1) underway scope path value) s fun log s' =>
      let round := Round.starting s.store scope root rest value
      ∃ told : Chronicle, log = .written round underway :: told ∧ (told.Quiet →
        told = tellings round.level root round.value round.left ∧ Heard (written s scope path root rest value) s') := by
  intro log s' hrun
  rw [setValue_run react depth underway scope hpath] at hrun
  obtain ⟨⟨told, t⟩, htold, heq⟩ := Option.map_eq_some_iff.1 hrun
  cases heq
  exact ⟨told, rfl, notifyAll_quiet (setValue_idle react depth) _ _ _ _ _ _ told t htold⟩

/-! ### Those who only listen write nothing -/

/-- The step comes to an end without a write. -/
def RunsQuietly (x : Engine Chronicle) (s : State) : Prop :=
  ∃ log s', x s = some (log, s') ∧ log.Quiet ∧ s'.listeners = s.listeners

theorem perform_runsQuietly (writer : Writer) (r : Reaction) (hr : r.Mute s.listeners) :
    RunsQuietly (r.perform writer) s := by
  induction r generalizing s with
  | done => exact ⟨[], s, rfl, List.forall_mem_nil _, rfl⟩
  | look next ih => exact ih s (hr s rfl)
  | write scope path value next => exact hr.elim
  | subscribe scope name who next ih => exact ih (s := { s with store := s.store.subscribe scope name who }) hr
  | unsubscribe scope name who next ih => exact ih (s := { s with store := s.store.unsubscribe scope name who }) hr

theorem notify_runsQuietly (writer : Writer) (hreact : react.OnlyListen s.listeners) (round : Round)
    (who : Subscriber) : RunsQuietly (notify react writer round who) s := by
  cases who with
  | proxy target key =>
    obtain ⟨notices, htrace⟩ := trace_run (.invalidated key round.name) s
    have hquiet : Quiet [.told (.proxy target key) round] := by simp [Quiet]
    unfold notify RunsQuietly
    dsimp only
    rw [Engine.bind_run, htrace]
    exact ⟨_, _, rfl, hquiet, rfl⟩
  | listener who =>
    have hmute := hreact who round.name round.value
    obtain ⟨log, s', hrun, hquiet, hs'⟩ :=
      perform_runsQuietly (s := { s with events := .notify who round.name round.value :: s.events }) writer _ hmute
    unfold notify RunsQuietly
    dsimp only
    rw [Engine.bind_run, emit_run, Option.bind_some, Engine.bind_run, hrun]
    refine ⟨_, _, rfl, ?_, hs'⟩
    intro e he
    rcases List.mem_cons.1 he with rfl | he
    · exact ⟨_, _, rfl⟩
    · exact hquiet e he

theorem notifyAll_runsQuietly (writer : List Round → Writer) (hreact : react.OnlyListen s.listeners)
    (underway : List Round) (level : Scope) (name : String) (value : Json) (all : List Subscriber) :
    RunsQuietly (notifyAll react writer underway level name value all) s := by
  induction all generalizing s with
  | nil => exact ⟨[], s, rfl, List.forall_mem_nil _, rfl⟩
  | cons who left ih =>
    let round : Round := ⟨level, name, value, left⟩
    obtain ⟨first, s₁, hfirst, hquiet, hs₁⟩ := notify_runsQuietly (writer (round :: underway)) hreact round who
    obtain ⟨more, s₂, hmore, hquiet', hs₂⟩ := ih (s := s₁) (by rwa [hs₁])
    refine ⟨first ++ more, s₂, ?_, ?_, hs₂.trans hs₁⟩
    · unfold notifyAll
      rw [Engine.bind_run, hfirst, Option.bind_some, Engine.bind_run, hmore]
      rfl
    · intro e he
      rcases List.mem_append.1 he with he | he
      · exact hquiet e he
      · exact hquiet' e he

/-- Where all only listen, a write comes to an end, and nobody writes in turn. -/
theorem setValue_runs (depth : Nat) (underway : List Round) (scope : Scope) (hpath : Path.segments path = root :: rest)
    (value : Json) (hreact : react.OnlyListen s.listeners) : ∃ told : Chronicle, ∃ s',
      setValue react (depth + 1) underway scope path value s =
        some (.written (Round.starting s.store scope root rest value) underway :: told, s') ∧
      told.Quiet ∧ s'.listeners = s.listeners := by
  obtain ⟨told, s', hrun, hquiet, hs'⟩ := notifyAll_runsQuietly (s := written s scope path root rest value)
    (setValue react depth) hreact underway (s.store.owner scope root) root
    (Round.starting s.store scope root rest value).value (Round.starting s.store scope root rest value).left
  refine ⟨told, s', ?_, hquiet, hs'⟩
  rw [setValue_run react depth underway scope hpath]
  exact congrArg (Option.map _) hrun

end Chronicle
end LiveLayout
