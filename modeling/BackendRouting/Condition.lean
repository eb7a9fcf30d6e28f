import BackendRouting.Message
import BackendRouting.Pattern.Alphabet

/-!
# Conditions on a message

A condition is a tree of comparisons joined by `&`, `|` and `not`. `holds` is its
meaning; `render` is its canonical text, which reads back as the same tree exactly
when every compared value can be quoted (`unquotable?`).
-/
namespace BackendRouting

inductive Connective where
  | and
  | or
  deriving DecidableEq, Repr

inductive Comparison where
  | equals
  | startsWith
  deriving DecidableEq, Repr

inductive Condition where
  | join (connective : Connective) (left right : Condition)
  | negate (inner : Condition)
  | test (comparison : Comparison) (attr : Attribute) (value : String)
  deriving DecidableEq, Repr

namespace Connective

def sign : Connective → String
  | and => "&"
  | or => "|"

def apply : Connective → Bool → Bool → Bool
  | and, a, b => a && b
  | or, a, b => a || b

end Connective

namespace Comparison

def word : Comparison → String
  | equals => "equals"
  | startsWith => "startswith"

/-- How the value a message carries compares with the value of the condition. -/
def accepts : Comparison → (actual value : String) → Bool
  | equals, actual, value => actual == value
  | startsWith, actual, value => value.toList.isPrefixOf actual.toList

end Comparison

namespace Condition

/-- A comparison with an absent attribute is false. -/
def holds (m : Message) : Condition → Bool
  | join c left right => c.apply (left.holds m) (right.holds m)
  | negate inner => !inner.holds m
  | test c attr value => (m.get? attr).any (c.accepts · value)

/-- The canonical text: one space after each comma, none elsewhere. -/
def render : Condition → String
  | join c left right => c.sign ++ "(" ++ left.render ++ ", " ++ right.render ++ ")"
  | negate inner => "not(" ++ inner.render ++ ")"
  | test c attr value => c.word ++ "(" ++ attr.name ++ ", '" ++ value ++ "')"

/-- The compared values, in the order of the canonical text. -/
def values : Condition → List String
  | join _ left right => left.values ++ right.values
  | negate inner => inner.values
  | test _ _ value => [value]

/-- The first value that cannot stand between quotes. -/
def unquotable? (e : Condition) : Option String :=
  e.values.find? fun value => !Pattern.isQuotable value

end Condition
end BackendRouting
