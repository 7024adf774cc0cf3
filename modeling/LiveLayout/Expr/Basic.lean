import LiveLayout.Json.Basic
/-!
Binding expressions and the variables they read.
-/
namespace LiveLayout

inductive UnaryOp where
  | not
  | neg
  deriving DecidableEq

inductive BinaryOp where
  | mul
  | div
  | rem
  | add
  | sub
  | lt
  | ltEq
  | gt
  | gtEq
  | eq
  | notEq
  | and
  | or
  deriving DecidableEq

inductive Expr where
  | literal (v : Json)
  | ident (name : String)
  | member (object : Expr) (field : String)
  | index (object : Expr) (position : Expr)
  | array (items : List Expr)
  | unary (op : UnaryOp) (operand : Expr)
  | binary (op : BinaryOp) (left : Expr) (right : Expr)
  | conditional (condition : Expr) (yes : Expr) (no : Expr)
  deriving Inhabited

namespace Expr

mutual

/-- The names read so far, followed by those that the expression reads first. Only the root of a path
is a name. -/
def collect (seen : List String) : Expr → List String
  | .literal _ => seen
  | .ident name => if name ∈ seen then seen else seen ++ [name]
  | .member object _ => object.collect seen
  | .index object position => position.collect (object.collect seen)
  | .array items => collectItems seen items
  | .unary _ operand => operand.collect seen
  | .binary _ left right => right.collect (left.collect seen)
  | .conditional condition yes no => no.collect (yes.collect (condition.collect seen))

def collectItems (seen : List String) : List Expr → List String
  | [] => seen
  | e :: rest => collectItems (e.collect seen) rest

end

/-- The variables that an expression reads, each once, in the order in which they first occur. -/
def identifiers (e : Expr) : List String := e.collect []

end Expr
end LiveLayout
