import LiveLayout.Node
import LiveLayout.Store.Evaluate
import LiveLayout.Transport
/-!
What is reported while layouts are mounted, rendered and used: causes, and the lines they are logged as.
-/
namespace LiveLayout

def Constructor.shown : Constructor → String
  | .element tag => "Element(" ++ Text.quoted tag ++ ")"
  | .recipe _ _ => "Factory(..)"

def Target.shown : Target → String
  | .special kind => "Special(" ++ kind.name ++ ")"
  | .constructor c => "Constructor(" ++ c.shown ++ ")"
  | .tag name => "Tag(" ++ Text.quoted name ++ ")"

inductive Importance where
  | warn
  | info
  | debug
  deriving DecidableEq

def Importance.name : Importance → String
  | .warn => "warn"
  | .info => "info"
  | .debug => "debug"

def Importance.rank : Importance → Nat
  | .warn => 0
  | .info => 1
  | .debug => 2

inductive Notice where
  | registered (name : String)
  | emptyPath
  | written (path : String) (value : Json) (label : String)
  | noFieldValue (hook : HookArgument) (path : String)
  | typeless (brick : Json)
  | rendered (typeName : String) (target : Target) (id : Option String)
  | unknownType (typeName : String) (passed : Bool)
  | notEvaluated (text : String) (cause : ExprError)
  | noHandler (key property handler : String)
  | namelessField (typeName : Option String)
  | fieldWired (hook path : String)
  | notParsed (text property : String) (cause : Expr.SyntaxError)
  | leftUnset (property : String) (key : Option String) (cause : EvalError)
  | invalidated (key : Option String) (name : String)
  | subscribed (key : Option String) (names : List String)
  | unsubscribed (key : Option String)
  | mounted (component : String) (key : Option String)
  | unmounted (component : String) (key : Option String)
  | rerendered (component : String) (key : Option String) (renders : Nat)
  | notMounted (id : Nat)
  | endlessFlush (rounds : Nat)
  | fetchWithoutUrl
  | fetchSkipped (url : String)
  | fetching (method url : String)
  | fetchTooLate
  | fetchFailed (cause : Failure)
  | bodyEntryWithoutKey (entry : Json)
  | bodyValueFailed (text : String) (cause : ExprError)
  | replacing (target : String)
  | layoutMounted (target : String) (components : Nat)
  | layoutUnmounted (target : String)
  | dispatched (key property target : String)

namespace Notice

def importance : Notice → Importance
  | .emptyPath | .typeless _ | .unknownType _ _ | .notEvaluated _ _ | .namelessField _
  | .notParsed _ _ _ | .leftUnset _ _ _ | .endlessFlush _ | .fetchWithoutUrl | .fetchSkipped _
  | .fetchFailed _ | .bodyEntryWithoutKey _ | .bodyValueFailed _ _ => .warn
  | .layoutMounted _ _ | .layoutUnmounted _ => .info
  | _ => .debug

def noHandlerText (key property : String) : String :=
  "no handler prop '" ++ property ++ "' on element '" ++ key ++ "'"

def noUrlText : String := "fetch brick has no url"

def text : Notice → String
  | .registered name => "registered brick '" ++ name ++ "'"
  | .emptyPath => "ignoring write to empty path"
  | .written path value label =>
    "set " ++ path ++ " = " ++ value.text ++ " (scope '" ++ label ++ "')"
  | .noFieldValue hook path => "no value at argument " ++ toString hook.index ++ " / " ++
      Text.quotedOption hook.field ++ " for '" ++ path ++ "', skipping the write"
  | .typeless brick => "dropping a brick without a type: " ++ brick.text
  | .rendered typeName target id => "render " ++ typeName ++ " as " ++ target.shown ++ " (id " ++
      Text.quotedOption id ++ ")"
  | .unknownType typeName passed => "no brick registered for type '" ++ typeName ++ "', " ++
      (if passed then "passing it through as a tag" else "dropping the node")
  | .notEvaluated text cause => "failed to evaluate '" ++ text ++ "': " ++ cause.message
  | .noHandler key property handler =>
    noHandlerText key property ++ " (handler id '" ++ handler ++ "')"
  | .namelessField typeName => "form field " ++ Text.quotedOption typeName ++
      " has neither a name nor an id, its value is not tracked"
  | .fieldWired hook path => "wire " ++ hook ++ " on field '" ++ path ++ "'"
  | .notParsed text property cause =>
    "cannot parse '" ++ text ++ "' for property '" ++ property ++ "': " ++ cause.message
  | .leftUnset property key cause => "property '" ++ property ++ "' of " ++ Text.quotedOption key ++
      " left unset: " ++ cause.message
  | .invalidated key name => Text.quotedOption key ++ " invalidated by '" ++ name ++ "'"
  | .subscribed key names => Text.quotedOption key ++ " subscribed to " ++ Text.quotedList names
  | .unsubscribed key => Text.quotedOption key ++ " unsubscribed"
  | .mounted component key => "mount " ++ component ++ " " ++ Text.quotedOption key
  | .unmounted component key => "unmount " ++ component ++ " " ++ Text.quotedOption key
  | .rerendered component key renders => "re-render " ++ component ++ " " ++ Text.quotedOption key ++
      " (#" ++ toString renders ++ ")"
  | .notMounted id => "ignoring invalidation of unmounted InstanceId(" ++ toString id ++ ")"
  | .endlessFlush rounds => "components are still invalidating after " ++ toString rounds ++
      " flush rounds, giving up"
  | .fetchWithoutUrl => noUrlText
  | .fetchSkipped url => "fetch of " ++ url ++ " skipped: " ++ Failure.unavailable.message
  | .fetching method url => "fetch " ++ method ++ " " ++ url
  | .fetchTooLate => "fetch resolved after unmount, dropping the result"
  | .fetchFailed cause => "fetch failed: " ++ cause.message
  | .bodyEntryWithoutKey entry => "fetch body entry without a key: " ++ entry.text
  | .bodyValueFailed text cause => "fetch body value '" ++ text ++ "' failed: " ++ cause.message
  | .replacing target => "replacing the layout mounted on '" ++ target ++ "'"
  | .layoutMounted target components => "mounted layout on '" ++ target ++ "' (" ++
      toString components ++ " components)"
  | .layoutUnmounted target => "unmounted '" ++ target ++ "'"
  | .dispatched key property target =>
    "dispatch " ++ key ++ "." ++ property ++ " on '" ++ target ++ "'"

end Notice
end LiveLayout
