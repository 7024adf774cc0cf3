import LiveLayout.Decimal.Reading
/-!
The arguments of the command line: one layout, options with values, and flags.
-/
namespace LiveLayout.Command

structure Arguments where
  layout : Option String := none
  scope : Option String := none
  config : Option String := none
  /-- How long to wait for answers, in milliseconds. -/
  timeout : Option Nat := none
  assignments : List String := []
  dispatches : List String := []
  json : Bool := false
  debug : Bool := false

/-- Why no layout is rendered. -/
inductive Stop where
  | rejected
  | help
  | version
  deriving DecidableEq

namespace Arguments

/-- A value that may be given once. -/
def once {α : Type} (old : Option α) (v : α) : Except Stop (Option α) :=
  if old.isSome then .error .rejected else .ok (some v)

/-- The name of a file, which is not empty. -/
def file (old : Option String) (v : String) : Except Stop (Option String) :=
  if v = "" then .error .rejected else once old v

def flag (old : Bool) : Except Stop Bool := if old then .error .rejected else .ok true

/-- Takes the value of an option; no result for a name that is no option with a value. -/
def option? (a : Arguments) (name v : String) : Option (Except Stop Arguments) :=
  match name with
  | "scope" => some do return { a with scope := ← file a.scope v }
  | "config" => some do return { a with config := ← file a.config v }
  | "set" => some (.ok { a with assignments := a.assignments ++ [v] })
  | "dispatch" => some (.ok { a with dispatches := a.dispatches ++ [v] })
  | "timeout-ms" => some do
    match Decimal.index? v with
    | some n => return { a with timeout := ← once a.timeout n }
    | none => .error .rejected
  | _ => none

/-- Takes a flag. -/
def flagged (a : Arguments) (name : String) : Except Stop Arguments :=
  match name with
  | "json" => do return { a with json := ← flag a.json }
  | "debug" => do return { a with debug := ← flag a.debug }
  | "help" => .error .help
  | "version" => .error .version
  | _ => .error .rejected

def positional (a : Arguments) (v : String) : Except Stop Arguments := do
  return { a with layout := ← file a.layout v }

/-- Whether an argument is read as an option and not as a value. -/
def isOption (v : String) : Bool :=
  match v.toList with
  | '-' :: _ :: _ => true
  | _ => false

/-- The text before the first `sep` and the text after it, if there is one. -/
def cut (sep : Char) (s : String) : String × Option String :=
  let cs := s.toList
  let before := cs.takeWhile (· ≠ sep)
  match cs.dropWhile (· ≠ sep) with
  | _ :: after => (String.ofList before, some (String.ofList after))
  | [] => (s, none)

/-- Reads arguments in order. After a bare `--` all are layouts. -/
def read (a : Arguments) : List String → Except Stop Arguments
  | [] => .ok a
  | v :: rest =>
    match v.toList with
    | ['-', '-'] => rest.foldlM positional a
    | '-' :: '-' :: name =>
      match cut '=' (String.ofList name) with
      | (name, some value) => do read (← (a.option? name value).getD (.error .rejected)) rest
      | (name, none) =>
        match rest with
        | [] => if (a.option? name "").isSome then .error .rejected else a.flagged name
        | next :: rest' =>
          match a.option? name next with
          | some result => do if isOption next then .error .rejected else read (← result) rest'
          | none => do read (← a.flagged name) (next :: rest')
    | ['-'] => do read (← a.positional v) rest
    | '-' :: c :: _ => .error (if c = 'h' then .help else if c = 'V' then .version else .rejected)
    | _ => do read (← a.positional v) rest

end Arguments
end LiveLayout.Command
