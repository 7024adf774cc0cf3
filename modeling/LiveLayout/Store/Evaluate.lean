import LiveLayout.Expr.Eval
import LiveLayout.Store.Basic
/-!
Evaluating expressions in a scope.
-/
namespace LiveLayout

inductive ExprError where
  | parse (e : Expr.SyntaxError)
  | eval (e : EvalError)

def ExprError.message : ExprError → String
  | .parse e => e.message
  | .eval e => e.message

namespace Store

def evaluate (s : Store) (scope : Scope) (e : Expr) : Except EvalError Json :=
  e.evaluate (s.lookup? scope)

/-- The value of an expression's text. -/
def evaluateText (s : Store) (scope : Scope) (text : String) : Except ExprError Json :=
  match Expr.parse text with
  | .error e => .error (.parse e)
  | .ok e =>
    match s.evaluate scope e with
    | .error e => .error (.eval e)
    | .ok v => .ok v

end Store
end LiveLayout
