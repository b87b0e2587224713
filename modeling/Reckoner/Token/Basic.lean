import Reckoner.Operator
/-!
# Tokens

A token is a lexeme of formula text with its kind and, when it was scanned, the offset at which it starts. Tokens
made by hand may have no offset.
-/
namespace Reckoner

inductive TokenKind where
  | number
  | string
  | leftParen
  | rightParen
  | comma
  | operator
  | name
  | unknown
  deriving DecidableEq, Repr

namespace TokenKind

/-- The word under which listings show the kind. -/
def label : TokenKind → Text
  | .number => "NUMBER"
  | .string => "STRING"
  | .leftParen => "LPAR"
  | .rightParen => "RPAR"
  | .comma => "COMMA"
  | .operator => "OPERATOR"
  | .name => "NAME"
  | .unknown => "UNKNOWN"

def all : List TokenKind := [.number, .string, .leftParen, .rightParen, .comma, .operator, .name, .unknown]

def ofLabel? (t : Text) : Option TokenKind := all.find? (·.label = t)

theorem ofLabel?_label (k : TokenKind) : ofLabel? k.label = some k := by cases k <;> decide

end TokenKind

structure Token where
  kind : TokenKind
  text : Text
  position : Option Int
  deriving DecidableEq, Repr

namespace Token

/-- Is the text of the token the symbol of this operator? The kind does not matter. -/
def isSymbol (t : Token) (op : Operator) : Bool := t.text == op.symbol

/-- An operator token with one of the four signs. -/
def isBinaryOperator (t : Token) : Bool := t.kind == .operator && (Operator.ofSymbol? t.text).isSome

/-- A token after which a minus sign can only be the sign of a number. -/
def opensOperand (t : Token) : Bool := t.kind == .leftParen || t.kind == .comma || t.isBinaryOperator

end Token
end Reckoner
