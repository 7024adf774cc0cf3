import LiveLayout.Proofs.Store.Writes
import LiveLayout.Proofs.Telling.Chronicle
import Mathlib
/-!
What subscribers are told last. A cascade leaves a variable with the value of its last write. Rounds that were
under way at that write and have yet to tell somebody come back to their own values.
-/
namespace LiveLayout.Chronicle

open Engine

/-! ### Last entries -/

/-- The last thing of a kind. -/
def last? {α : Type} (kind : Entry → Option α) (log : Chronicle) : Option α := log.reverse.findSome? kind

section

variable {α : Type} {kind : Entry → Option α}

theorem last?_nil (kind : Entry → Option α) : last? kind [] = none := rfl

theorem last?_append (log more : Chronicle) : last? kind (log ++ more) = (last? kind more).or (last? kind log) := by
  unfold last?
  rw [List.reverse_append, List.findSome?_append]

theorem last?_cons (e : Entry) (log : Chronicle) : last? kind (e :: log) = (last? kind log).or (kind e) := by
  have hone : last? kind [e] = kind e := by simp [last?]
  rw [← List.singleton_append, last?_append, hone]

end

/-- A write of the variable, with the rounds under way. -/
def Entry.write? (level : Scope) (name : String) : Entry → Option (Round × List Round)
  | .written round underway => if round.Of level name then some (round, underway) else none
  | .told .. => none

/-- The value of the variable that the subscriber is told. -/
def Entry.value? (level : Scope) (name : String) (who : Subscriber) : Entry → Option Json
  | .written .. => none
  | .told w round => if w = who ∧ round.Of level name then some round.value else none

/-- What a listener gets to see. -/
def Entry.event? : Entry → Option Event
  | .told (.listener who) round => some (.notify who round.name round.value)
  | _ => none

/-- If this is a write of the variable, the subscriber is among those who are to be told. -/
def Entry.Invites (who : Subscriber) (level : Scope) (name : String) : Entry → Prop
  | .written round _ => round.Of level name → who ∈ round.left
  | .told .. => True

instance (who : Subscriber) (level : Scope) (name : String) : (e : Entry) → Decidable (e.Invites who level name)
  | .written .. => inferInstanceAs (Decidable (_ → _))
  | .told .. => inferInstanceAs (Decidable True)

/-- The subscriber takes part in every round of the variable. -/
def Attends (who : Subscriber) (level : Scope) (name : String) (log : Chronicle) : Prop :=
  ∀ e ∈ log, e.Invites who level name

instance (who : Subscriber) (level : Scope) (name : String) (log : Chronicle) :
    Decidable (Attends who level name log) := inferInstanceAs (Decidable (∀ _ ∈ _, _))

theorem Attends.left {who : Subscriber} {level : Scope} {name : String} {log more : Chronicle}
    (h : Attends who level name (log ++ more)) : Attends who level name log :=
  fun e he => h e (List.mem_append_left _ he)

theorem Attends.right {who : Subscriber} {level : Scope} {name : String} {log more : Chronicle}
    (h : Attends who level name (log ++ more)) : Attends who level name more :=
  fun e he => h e (List.mem_append_right _ he)

theorem mem_of_last? {level : Scope} {name : String} {round : Round} {among : List Round} {log : Chronicle}
    (h : last? (Entry.write? level name) log = some (round, among)) :
    .written round among ∈ log ∧ round.Of level name := by
  obtain ⟨e, he, hwrite⟩ := List.exists_of_findSome?_eq_some h
  rw [List.mem_reverse] at he
  cases e with
  | told who r => cases hwrite
  | written r u =>
    unfold Entry.write? at hwrite
    dsimp only at hwrite
    by_cases hof : r.Of level name
    · rw [if_pos hof] at hwrite
      cases hwrite
      exact ⟨he, hof⟩
    · rw [if_neg hof] at hwrite
      cases hwrite

/-! ### What a chronicle says -/

/-- What subscribers are to be told of variables, apart from new writes. -/
abbrev Tidings := Scope → String → Subscriber → Option Json

namespace Tidings

protected def none : Tidings := fun _ _ _ => .none

/-- The value of the round, for one subscriber. -/
def just (who : Subscriber) (round : Round) : Tidings := fun level name w =>
  if w = who ∧ round.Of level name then some round.value else .none

/-- The value of the round, for all who are left. -/
def rest (round : Round) : Tidings := fun level name who =>
  if who ∈ round.left ∧ round.Of level name then some round.value else .none

/-- First these, and later those. -/
def thenLater (first later : Tidings) : Tidings := fun level name who =>
  (later level name who).or (first level name who)

/-- What is still to come of rounds under way, the innermost first. -/
def due : List Round → Tidings
  | [] => .none
  | round :: outer => thenLater (rest round) (due outer)

theorem due_append (inner outer : List Round) : due (inner ++ outer) = thenLater (due inner) (due outer) := by
  funext level name who
  induction inner with
  | nil => exact Option.or_none.symm
  | cons round inner ih =>
    show (due (inner ++ outer) level name who).or _ = (due outer level name who).or ((due inner level name who).or _)
    rw [ih, thenLater, Option.or_assoc]

theorem just_thenLater_rest (who : Subscriber) (round : Round) :
    thenLater (just who round) (rest round) = rest { round with left := who :: round.left } := by
  funext level name w
  by_cases hof : round.Of level name
  · have hof' : Round.Of { round with left := who :: round.left } level name := hof
    by_cases hleft : w ∈ round.left
    · simp [thenLater, just, rest, hof, hof', hleft]
    · simp [thenLater, just, rest, hof, hof', hleft]
  · have hof' : ¬Round.Of { round with left := who :: round.left } level name := hof
    simp [thenLater, just, rest, hof, hof']

theorem rest_nil (round : Round) (h : round.left = []) : rest round = .none := by
  funext level name who
  simp [rest, h, Tidings.none]

end Tidings

/-- The chronicle is that of steps between two states, taken while some rounds were under way. -/
structure Covers (underway : List Round) (tidings : Tidings) (s : State) (log : Chronicle) (s' : State) : Prop where
  scopes : s.store.KeepsScopes s'.store
  values : ∀ level name, level < s.store.levels.size → s'.store.valueAt? level name =
    ((last? (Entry.write? level name) log).map fun w => w.1.value).or (s.store.valueAt? level name)
  events : s'.events = (log.filterMap Entry.event?).reverse ++ s.events
  carried : ∀ round among, .written round among ∈ log → underway <:+ among
  /-- Without a write, there is nothing to tell but what was to be told anyway. -/
  unwritten : ∀ level name who, last? (Entry.write? level name) log = .none →
    last? (Entry.value? level name who) log = tidings level name who
  /-- The last write is told last, unless rounds that these steps began come back to their own values. -/
  written : ∀ level name who round inner, last? (Entry.write? level name) log = some (round, inner ++ underway) →
    Attends who level name log →
    last? (Entry.value? level name who) log = some ((Tidings.due inner level name who).getD round.value)

namespace Covers

variable {underway : List Round} {tidings : Tidings} {s s' s'' : State} {log more : Chronicle}

/-- Steps that neither write nor tell. -/
theorem nothing (hvalues : s.store.KeepsValues s'.store) (hevents : s'.events = s.events) :
    Covers underway .none s [] s' := by
  constructor
  · exact hvalues.keepsScopes
  · intro level name hlevel
    rw [last?_nil, Option.map_none, Option.none_or, hvalues.valueAt?_eq hlevel]
  · exact hevents
  · intro round among hmem
    cases hmem
  · intro level name who _
    rfl
  · intro level name who round inner hlast
    cases hlast

theorem refl (s : State) : Covers underway .none s [] s := nothing (.refl _) rfl

/-- What is told later is still to come of rounds that the first steps were part of. -/
theorem append (outer : List Round) (h : Covers (outer ++ underway) tidings s log s')
    (h' : Covers underway (.due outer) s' more s'') :
    Covers underway (tidings.thenLater (.due outer)) s (log ++ more) s'' := by
  constructor
  · exact h.scopes.trans h'.scopes
  · intro level name hlevel
    rw [h'.values level name (h.scopes.lt_size hlevel), h.values level name hlevel, last?_append]
    cases last? (Entry.write? level name) more with
    | none => rfl
    | some w => rfl
  · rw [h'.events, h.events, List.filterMap_append, List.reverse_append, List.append_assoc]
  · intro round among hmem
    rcases List.mem_append.1 hmem with hmem | hmem
    · exact (List.suffix_append outer underway).trans (h.carried round among hmem)
    · exact h'.carried round among hmem
  · intro level name who hnone
    rw [last?_append, Option.or_eq_none_iff] at hnone
    rw [last?_append, h'.unwritten level name who hnone.1, h.unwritten level name who hnone.2]
    rfl
  · intro level name who round inner hlast hattends
    rw [last?_append] at hlast ⊢
    cases hmore : last? (Entry.write? level name) more with
    | some w =>
      rw [hmore, Option.some_or] at hlast
      cases hlast
      rw [h'.written level name who _ _ hmore hattends.right, Option.some_or]
    | none =>
      rw [hmore, Option.none_or] at hlast
      obtain ⟨innermost, hamong⟩ := h.carried _ _ (mem_of_last? hlast).1
      obtain rfl : innermost ++ outer = inner := by
        rw [← List.append_assoc] at hamong
        exact List.append_cancel_right hamong
      rw [List.append_assoc] at hlast
      rw [h'.unwritten level name who hmore, h.written level name who _ _ hlast hattends.left, Tidings.due_append]
      unfold Tidings.thenLater
      cases Tidings.due outer level name who with
      | none => rfl
      | some v => rfl

/-- A subscriber is told, and what it does follows. -/
theorem told {who : Subscriber} {round : Round} (hvalues : s.store.KeepsValues s'.store)
    (hevents : s'.events = (Entry.event? (.told who round)).toList ++ s.events)
    (h : Covers underway .none s' log s'') : Covers underway (.just who round) s (.told who round :: log) s'' := by
  have hwrite (level : Scope) (name : String) : last? (Entry.write? level name) (.told who round :: log) =
      last? (Entry.write? level name) log := by
    rw [last?_cons]
    exact Option.or_none
  constructor
  · exact hvalues.keepsScopes.trans h.scopes
  · intro level name hlevel
    rw [hwrite, h.values level name (hvalues.keepsScopes.lt_size hlevel), hvalues.valueAt?_eq hlevel]
  · rw [h.events, hevents, ← List.append_assoc, List.filterMap_cons]
    cases Entry.event? (.told who round) with
    | none => simp
    | some e => simp
  · intro r among hmem
    rcases List.mem_cons.1 hmem with heq | hmem
    · cases heq
    · exact h.carried r among hmem
  · intro level name w hnone
    rw [hwrite] at hnone
    rw [last?_cons, h.unwritten level name w hnone]
    simp [Tidings.none, Tidings.just, Entry.value?, eq_comm]
  · intro level name w r inner hlast hattends
    rw [hwrite] at hlast
    have hrest : Attends w level name log := fun e he => hattends e (List.mem_cons_of_mem _ he)
    rw [last?_cons, h.written level name w r inner hlast hrest, Option.some_or]

/-- A variable is written, and all who take part are told. -/
theorem wrote {round : Round} (hscopes : s.store.KeepsScopes s'.store)
    (hwritten : round.level < s.store.levels.size → s'.store.valueAt? round.level round.name = some round.value)
    (hothers : ∀ level name, ¬round.Of level name → s'.store.valueAt? level name = s.store.valueAt? level name)
    (hevents : s'.events = s.events) (h : Covers underway (.rest round) s' log s'') :
    Covers underway .none s (.written round underway :: log) s'' := by
  constructor
  · exact hscopes.trans h.scopes
  · intro level name hlevel
    rw [last?_cons, h.values level name (hscopes.lt_size hlevel)]
    cases last? (Entry.write? level name) log with
    | some w => rfl
    | none =>
      by_cases hof : round.Of level name
      · obtain ⟨rfl, rfl⟩ := hof
        rw [hwritten hlevel, Entry.write?, if_pos ⟨rfl, rfl⟩]
        rfl
      · rw [hothers level name hof, Entry.write?, if_neg hof]
        rfl
  · rw [h.events, hevents]
    rfl
  · intro r among hmem
    rcases List.mem_cons.1 hmem with heq | hmem
    · cases heq
      exact List.suffix_rfl
    · exact h.carried r among hmem
  · intro level name who hnone
    rw [last?_cons, Option.or_eq_none_iff] at hnone
    have hof : ¬round.Of level name := fun hof => by simp [Entry.write?, hof] at hnone
    rw [last?_cons, h.unwritten level name who hnone.1]
    simp [Tidings.rest, Tidings.none, Entry.value?, hof]
  · intro level name who r inner hlast hattends
    have hrest : Attends who level name log := fun e he => hattends e (List.mem_cons_of_mem _ he)
    rw [last?_cons] at hlast ⊢
    cases hlater : last? (Entry.write? level name) log with
    | some w =>
      rw [hlater, Option.some_or] at hlast
      cases hlast
      rw [h.written level name who r inner hlater hrest, Option.some_or]
    | none =>
      rw [hlater, Option.none_or, Entry.write?] at hlast
      have hof : round.Of level name := by
        by_contra hof
        rw [if_neg hof] at hlast
        cases hlast
      rw [if_pos hof, Option.some_inj, Prod.mk.injEq] at hlast
      obtain ⟨rfl, hinner⟩ := hlast
      obtain rfl : [] = inner := List.append_cancel_right hinner
      have hwho : who ∈ round.left := hattends (.written round underway) List.mem_cons_self hof
      rw [h.unwritten level name who hlater, Tidings.rest, if_pos ⟨hwho, hof⟩, Option.some_or]
      rfl

end Covers

/-! ### Cascades -/

section

variable {writer : Writer} {underway : List Round}

theorem perform_covers (h : ∀ scope path value s, Ensures (writer scope path value) s fun log s' =>
    Covers underway .none s log s') (reaction : Reaction) (s : State) :
    Ensures (reaction.perform writer) s fun log s' => Covers underway .none s log s' := by
  induction reaction generalizing s with
  | done => exact .pure (.refl s)
  | look next ih => exact .bind_run (get_run s) (ih s s)
  | write scope path value next ih =>
    refine Ensures.bind (h scope path value s) fun first s₁ hfirst => ?_
    refine Ensures.bind (ih s₁) fun more s₂ hmore => ?_
    exact .pure (Covers.append [] hfirst hmore)
  | subscribe scope name who next ih =>
    refine Ensures.bind_run (modifyStore_run _ s) ((ih _).mono fun log s' hlog => ?_)
    have hsubscribed : Covers underway .none s [] { s with store := s.store.subscribe scope name who } :=
      .nothing (s.store.keepsValues_subscribe scope name who) rfl
    exact Covers.append [] hsubscribed hlog
  | unsubscribe scope name who next ih =>
    refine Ensures.bind_run (modifyStore_run _ s) ((ih _).mono fun log s' hlog => ?_)
    have hunsubscribed : Covers underway .none s [] { s with store := s.store.unsubscribe scope name who } :=
      .nothing (s.store.keepsValues_unsubscribe scope name who) rfl
    exact Covers.append [] hunsubscribed hlog

theorem trace_covers (n : Notice) (s : State) : Ensures (trace n) s fun _ s' =>
    s'.store = s.store ∧ s'.events = s.events := by
  obtain ⟨notices, hrun⟩ := trace_run n s
  exact .of_run hrun ⟨rfl, rfl⟩

variable {react : Reactions}

/-- While a subscriber is told, nothing earlier than its round is told. -/
theorem notify_covers {round : Round} (h : ∀ scope path value s, Ensures (writer scope path value) s
    fun log s' => Covers (round :: underway) .none s log s') (who : Subscriber) (s : State) :
    Ensures (notify react writer round who) s fun log s' => Covers (round :: underway) (.just who round) s log s' := by
  cases who with
  | proxy target key =>
    refine Ensures.bind (trace_covers _ s) fun _ s₁ h₁ => ?_
    refine Ensures.bind_run (a := ()) rfl ?_
    refine .pure (.told ?_ ?_ (.refl _))
    · rw [← h₁.1]
      exact .refl _
    · exact h₁.2
  | listener who =>
    refine Ensures.bind_run (emit_run _ s) ?_
    refine Ensures.bind (perform_covers h _ _) fun log s' hlog => ?_
    refine .pure (.told ?_ ?_ hlog)
    · exact .refl _
    · rfl

theorem notifyAll_covers {writer : List Round → Writer} (h : ∀ underway scope path value s,
    Ensures (writer underway scope path value) s fun log s' => Covers underway .none s log s')
    (level : Scope) (name : String) (value : Json) (all : List Subscriber) (s : State) :
    Ensures (notifyAll react writer underway level name value all) s fun log s' =>
      Covers underway (.rest ⟨level, name, value, all⟩) s log s' := by
  induction all generalizing s with
  | nil =>
    rw [Tidings.rest_nil _ rfl]
    exact .pure (.refl s)
  | cons who left ih =>
    have hround := Tidings.just_thenLater_rest who ⟨level, name, value, left⟩
    rw [← hround]
    refine Ensures.bind (notify_covers (h _) who s) fun first s₁ hfirst => ?_
    refine Ensures.bind (ih s₁) fun more s₂ hmore => ?_
    exact .pure (hfirst.append [⟨level, name, value, left⟩] hmore)

end

theorem setValue_covers (react : Reactions) (depth : Nat) (underway : List Round) (scope : Scope) (path : String)
    (value : Json) (s : State) : Ensures (setValue react depth underway scope path value) s fun log s' =>
      Covers underway .none s log s' := by
  induction depth generalizing underway scope path value s with
  | zero => exact .endless
  | succ depth ih =>
    unfold setValue
    cases Path.segments path with
    | nil =>
      refine Ensures.bind_run (log_run _ s) ?_
      exact .pure (.nothing (.refl _) rfl)
    | cons root rest =>
      refine Ensures.bind_run (get_run s) ?_
      refine Ensures.bind_run (log_run _ s) ?_
      refine Ensures.bind_run (modifyStore_run _ _) ?_
      refine Ensures.bind_run (get_run _) ?_
      refine Ensures.bind (notifyAll_covers ih _ _ _ _ _) fun log s' hlog => .pure (.wrote ?_ ?_ ?_ ?_ hlog)
      · exact s.store.keepsScopes_write scope root rest value
      · intro howner
        dsimp only at howner ⊢
        rw [Store.valueAt?_write howner]
        rfl
      · intro level name hof
        exact Store.valueAt?_write_of_ne fun h => hof ⟨h.1.symm, h.2.symm⟩
      · rfl

/-- A cascade moves no variable to another level. -/
theorem keepsScopes_of_set {scope : Scope} {path : String} {value : Json} {s s' : State}
    (h : Engine.set scope path value s = some ((), s')) : s.store.KeepsScopes s'.store := by
  unfold Engine.set at h
  rw [setValue_records cascadeLimit [] scope path value s] at h
  obtain ⟨⟨log, t⟩, hrun, heq⟩ := Option.map_eq_some_iff.1 h
  cases heq
  exact (setValue_covers .scripted cascadeLimit [] scope path value s log t hrun).scopes

/-- After a write from outside, whatever the listeners do, each variable written has the value of its last write.
Whoever heard of all its writes was told this value last, unless rounds of the variable that the last write was part of
had yet to come to it: then it was told the value of the outermost of these last. -/
theorem set_tells_last (depth : Nat) (scope : Scope) (path : String) (value : Json) (s : State) :
    Engine.setValue depth scope path value s =
        (setValue .scripted depth [] scope path value s).map (fun r => ((), r.2)) ∧
      ∀ (react : Reactions) (log : Chronicle) (s' : State), setValue react depth [] scope path value s = some (log, s') →
        s'.events = (log.filterMap Entry.event?).reverse ++ s.events ∧
        ∀ level name round among, level < s.store.levels.size →
          last? (Entry.write? level name) log = some (round, among) →
          ∃ v, s'.store.valueAt? level name = some v ∧ ∀ who, Attends who level name log →
            last? (Entry.value? level name who) log = some ((Tidings.due among level name who).getD v) := by
  refine ⟨setValue_records depth [] scope path value s, fun react log s' hrun => ?_⟩
  have hcovers := setValue_covers react depth [] scope path value s log s' hrun
  refine ⟨hcovers.events, fun level name round among hlevel hlast => ⟨round.value, ?_, fun who hattends => ?_⟩⟩
  · rw [hcovers.values level name hlevel, hlast]
    rfl
  · rw [← List.append_nil among] at hlast
    exact hcovers.written level name who round among hlast hattends

/-- Two listen to a variable, and one of them turns a one into a two. -/
def eagerState (order : List String) : State where
  store := ⟨#[{
    label := "root", values := [], parent := none, subscribers := [("x", order.map .listener)] }]⟩
  scopes := [("main", 0)]
  listeners := [("A", [⟨some (.nat 1), "main", .write "x" (.nat 2)⟩])]

/-- Who turns the one into a two has been told of it last. -/
def lateLog : Chronicle :=
  [.written ⟨0, "x", .nat 1, [.listener "B", .listener "A"]⟩ [],
    .told (.listener "B") ⟨0, "x", .nat 1, [.listener "A"]⟩,
    .told (.listener "A") ⟨0, "x", .nat 1, []⟩,
    .written ⟨0, "x", .nat 2, [.listener "B", .listener "A"]⟩ [⟨0, "x", .nat 1, []⟩],
    .told (.listener "B") ⟨0, "x", .nat 2, [.listener "A"]⟩,
    .told (.listener "A") ⟨0, "x", .nat 2, []⟩]

/-- Who turns the one into a two has been told of it first, and the other one hears of the two before the one. -/
def earlyLog : Chronicle :=
  [.written ⟨0, "x", .nat 1, [.listener "A", .listener "B"]⟩ [],
    .told (.listener "A") ⟨0, "x", .nat 1, [.listener "B"]⟩,
    .written ⟨0, "x", .nat 2, [.listener "A", .listener "B"]⟩ [⟨0, "x", .nat 1, [.listener "B"]⟩],
    .told (.listener "A") ⟨0, "x", .nat 2, [.listener "B"]⟩,
    .told (.listener "B") ⟨0, "x", .nat 2, []⟩,
    .told (.listener "B") ⟨0, "x", .nat 1, []⟩]

/-- The chronicle of writing a one. -/
def eagerRun (order : List String) : Option (Chronicle × State) :=
  setValue .scripted cascadeLimit [] 0 "x" (.nat 1) (eagerState order)

theorem eagerRun_late : (eagerRun ["B", "A"]).map Prod.fst = some lateLog := by cbv

theorem eagerRun_early : (eagerRun ["A", "B"]).map (fun r => (r.1, r.2.store.valueAt? 0 "x")) =
    some (earlyLog, some (.nat 2)) := by cbv

theorem set_tells_last_late : ∃ s', Engine.set 0 "x" (.nat 1) (eagerState ["B", "A"]) = some ((), s') ∧
    eagerRun ["B", "A"] = some (lateLog, s') ∧ Attends (.listener "B") 0 "x" lateLog ∧
    Tidings.due [⟨0, "x", .nat 1, []⟩] 0 "x" (.listener "B") = none ∧
    ∃ v, s'.store.valueAt? 0 "x" = some v ∧ last? (Entry.value? 0 "x" (.listener "B")) lateLog = some v := by
  obtain ⟨⟨_, s'⟩, hset, rfl⟩ := Option.map_eq_some_iff.1 eagerRun_late
  obtain ⟨hrun, hall⟩ := set_tells_last cascadeLimit 0 "x" (.nat 1) (eagerState ["B", "A"])
  have hattends : Attends (.listener "B") 0 "x" lateLog := by decide
  have hdue : Tidings.due [⟨0, "x", .nat 1, []⟩] 0 "x" (.listener "B") = none := rfl
  obtain ⟨-, hlast⟩ := hall .scripted lateLog s' hset
  obtain ⟨v, hvalue, htold⟩ := hlast 0 "x" _ _ (by decide) rfl
  have hwho := htold _ hattends
  rw [hdue] at hwho
  refine ⟨s', ?_, hset, hattends, hdue, v, hvalue, hwho⟩
  change _ = (eagerRun ["B", "A"]).map _ at hrun
  rw [hset] at hrun
  exact hrun

/-- The other one listens all the time, and has been told the old value last. -/
theorem set_tells_last_early : ∃ s', Engine.set 0 "x" (.nat 1) (eagerState ["A", "B"]) = some ((), s') ∧
    eagerRun ["A", "B"] = some (earlyLog, s') ∧ Attends (.listener "B") 0 "x" earlyLog ∧
    s'.store.valueAt? 0 "x" = some (.nat 2) ∧ last? (Entry.value? 0 "x" (.listener "B")) earlyLog = some (.nat 1) := by
  obtain ⟨⟨_, s'⟩, hset, heq⟩ := Option.map_eq_some_iff.1 eagerRun_early
  obtain ⟨rfl, hvalue⟩ := Prod.mk.inj heq
  have hrun : Engine.set 0 "x" (.nat 1) (eagerState ["A", "B"]) = (eagerRun ["A", "B"]).map fun r => ((), r.2) :=
    setValue_records cascadeLimit [] 0 "x" (.nat 1) (eagerState ["A", "B"])
  rw [hset] at hrun
  exact ⟨s', hrun, hset, by decide, hvalue, rfl⟩

end LiveLayout.Chronicle
