import LiveLayout.Decimal.Text
import LiveLayout.Text.Quoted
/-!
The tokens of an expression and the errors that reading one can end with.
-/
namespace LiveLayout.Expr

inductive Token where
  | ident (name : String)
  | str (s : String)
  | number (x : Float)
  | true
  | false
  | null
  | dot
  | comma
  | lparen
  | rparen
  | lbracket
  | rbracket
  | question
  | colon
  | plus
  | minus
  | star
  | slash
  | percent
  | bang
  | eqEq
  | bangEq
  | lt
  | ltEq
  | gt
  | gtEq
  | andAnd
  | orOr
  | eof
  deriving DecidableEq

/-- A token and the byte at which it starts. -/
structure Lexeme where
  token : Token
  offset : Nat

namespace Token

def name : Token → String
  | .ident _ => "Ident"
  | .str _ => "Str"
  | .number _ => "Number"
  | .true => "True"
  | .false => "False"
  | .null => "Null"
  | .dot => "Dot"
  | .comma => "Comma"
  | .lparen => "LParen"
  | .rparen => "RParen"
  | .lbracket => "LBracket"
  | .rbracket => "RBracket"
  | .question => "Question"
  | .colon => "Colon"
  | .plus => "Plus"
  | .minus => "Minus"
  | .star => "Star"
  | .slash => "Slash"
  | .percent => "Percent"
  | .bang => "Bang"
  | .eqEq => "EqEq"
  | .bangEq => "BangEq"
  | .lt => "Lt"
  | .ltEq => "LtEq"
  | .gt => "Gt"
  | .gtEq => "GtEq"
  | .andAnd => "AndAnd"
  | .orOr => "OrOr"
  | .eof => "Eof"

/-- Numerals of tokens: points from -3 to 16 are positional, and a tie goes up. -/
def layout : Decimal.Layout := ⟨-4, 16, Bool.false, .up⟩

/-- The token as error messages show it. -/
def shown : Token → String
  | .ident s => "Ident(" ++ Text.quoted s ++ ")"
  | .str s => "Str(" ++ Text.quoted s ++ ")"
  | .number x => "Number(" ++ layout.write x ++ ")"
  | t => t.name

end Token

/-- Why a text is not an expression. -/
inductive SyntaxCause where
  | assignment
  | halfAnd
  | halfOr
  | unexpectedChar (c : Char)
  | openString
  | openEscape
  | tooDeep
  | empty
  | trailing (found : Token)
  | expected (wanted found : Token)
  | expectedField (found : Token)
  | expectedValue (found : Token)
  deriving DecidableEq

def SyntaxCause.message : SyntaxCause → String
  | .assignment => "assignment is not allowed in expressions"
  | .halfAnd => "expected '&&'"
  | .halfOr => "expected '||'"
  | .unexpectedChar c => "unexpected character " ++ Text.quotedChar c
  | .openString => "unterminated string literal"
  | .openEscape => "unterminated escape sequence"
  | .tooDeep => "expression nested too deeply"
  | .empty => "empty expression"
  | .trailing found => "unexpected " ++ found.shown ++ " after expression"
  | .expected wanted found => "expected " ++ wanted.shown ++ ", got " ++ found.shown
  | .expectedField found => "expected field name, got " ++ found.shown
  | .expectedValue found => "expected a value, got " ++ found.shown

/-- A cause and the byte at which it was found. -/
structure SyntaxError where
  cause : SyntaxCause
  offset : Nat
  deriving DecidableEq

def SyntaxError.message (e : SyntaxError) : String :=
  "expression parse error at " ++ toString e.offset ++ ": " ++ e.cause.message

end LiveLayout.Expr
