import LiveLayout.Engine.State
/-!
Sending requests and delivering their answers to the fetch bricks that made them.
-/
namespace LiveLayout.Engine

def fetchRecord? (i : Instance) : Engine (Option FetchRecord) :=
  return (← get).fetches.find? (·.owner = i)

def putFetch (r : FetchRecord) : Engine Unit := modify fun s =>
  { s with fetches := r :: s.fetches.filter (·.owner ≠ r.owner) }

/-- Hands an answer to its fetch brick, unless that has been unmounted. -/
def complete (c : Completion) (outcome : Outcome) : Engine Unit := do
  match ← fetchRecord? c.owner with
  | some r =>
    if r.alive then
      match outcome with
      | .ok _ => pure ()
      | .error f => log (.fetchFailed f)
      putFetch { r with state := FetchState.ofOutcome c.request outcome }
      invalidate c.owner
    else log .fetchTooLate
  | none => log .fetchTooLate

/-- Sends a request. Its answer arrives at once or waits to be delivered. -/
def send (request : Request) (c : Completion) : Engine Unit := do
  let network := (← get).network
  let number := network.requests.length
  modify fun s => { s with network := { network with requests := network.requests ++ [request] } }
  match network.immediate with
  | some outcome => complete c outcome
  | none => modify fun s =>
    { s with network := { s.network with waiting := s.network.waiting ++ [(number, c)] } }

/-- Delivers the answer to a request that still waits for it. -/
def deliver (number : Nat) (outcome : Outcome) : Engine Bool := do
  let network := (← get).network
  match network.waiting.find? (·.1 = number) with
  | none => return false
  | some (_, c) =>
    modify fun s =>
      { s with network := { network with waiting := network.waiting.filter (·.1 ≠ number) } }
    complete c outcome
    return true

end LiveLayout.Engine
