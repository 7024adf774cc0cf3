import LiveLayout.Json.Printer
/-!
Requests that fetch bricks send and the answers they get.
-/
namespace LiveLayout

structure Request where
  method : String
  url : String
  /-- Sorted by name. -/
  headers : List (String × String)
  body : Option Json

def asciiUpper (s : String) : String := String.ofList (s.toList.map Char.toUpper)

/-- Whether requests of this method have a body. -/
def isMutating (method : String) : Bool :=
  ["POST", "PUT", "PATCH", "DELETE"].contains (asciiUpper method)

def Request.toJson (r : Request) : Json :=
  .object [("method", .string r.method), ("url", .string r.url),
    ("headers", .object (r.headers.map fun (k, v) => (k, .string v))), ("body", r.body.getD .null)]

structure Response where
  status : Nat
  statusText : String
  data : Json

def Response.ok (data : Json) : Response := ⟨200, "OK", data⟩

/-- Why a request has no response, or one that counts as a failure. -/
inductive Failure where
  | unavailable
  | network (reason : String)
  | status (answer : Response)
  | decode (reason : String)

def Failure.message : Failure → String
  | .unavailable => "no transport configured"
  | .network reason => "network error: " ++ reason
  | .status answer => "server answered " ++ toString answer.status ++ " " ++ answer.statusText
  | .decode reason => "could not decode response: " ++ reason

/-- What a layout sees of a failure. -/
def Failure.toJson (f : Failure) : Json :=
  match f with
  | .status answer => .object [("message", .string f.message), ("status", .nat answer.status),
      ("statusText", .string answer.statusText), ("data", answer.data)]
  | _ => .object [("message", .string f.message)]

abbrev Outcome := Except Failure Response

end LiveLayout
