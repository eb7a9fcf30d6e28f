import BackendRouting.Condition

/-!
# Tokens of a pattern

A token is a lexeme with its kind and the characters it covers: `start` counts the
characters before it and `stop` those up to its end.
-/
namespace BackendRouting

/-- `space`, `illegal`, `start` and `stop` stand for no word of the language: runs
of spaces are dropped, `illegal` is text that no lexeme starts, and the other two
are the ends of a pattern. -/
inductive Kind where
  | attr (a : Attribute)
  | connective (c : Connective)
  | negation
  | comparison (c : Comparison)
  | comma
  | opening
  | closing
  | space
  | value
  | illegal
  | start
  | stop
  deriving DecidableEq, Repr

namespace Kind

/-- The lexeme of a kind that has only one, else words for what the kind is. -/
def display : Kind → String
  | attr a => a.name
  | connective c => c.sign
  | negation => "not"
  | comparison c => c.word
  | comma => ","
  | opening => "("
  | closing => ")"
  | space => "whitespace"
  | value => "quoted value"
  | illegal => "illegal input"
  | start => "start of pattern"
  | stop => "end of pattern"

def hasOneLexeme : Kind → Bool
  | space | value | illegal | start | stop => false
  | _ => true

/-- As in error messages: a fixed lexeme stands in quotes. -/
def describe (k : Kind) : String :=
  if k.hasOneLexeme then "'" ++ k.display ++ "'" else k.display

def isAttribute : Kind → Bool
  | attr _ => true
  | _ => false

def isConnective : Kind → Bool
  | connective _ => true
  | _ => false

def isComparison : Kind → Bool
  | comparison _ => true
  | _ => false

def attr? : Kind → Option Attribute
  | attr a => some a
  | _ => none

end Kind

structure Token where
  kind : Kind
  text : String
  start : Nat
  stop : Nat
  deriving DecidableEq, Repr

namespace Token

/-- The end of a pattern of `n` characters. -/
def ending (n : Nat) : Token := ⟨.stop, "", n, n⟩

def describe (t : Token) : String :=
  match t.kind with
  | .start | .stop => t.kind.describe
  | _ => "`" ++ t.text ++ "` at " ++ toString t.start ++ ".." ++ toString t.stop

/-- The text without the quotes around it; a text that is not between two quotes
is kept as it is. -/
def unquoted (t : Token) : String :=
  match t.text.toList with
  | '\'' :: cs => if cs.getLast? = some '\'' then String.ofList cs.dropLast else t.text
  | _ => t.text

end Token
end BackendRouting
