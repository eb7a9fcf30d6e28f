/-!
# Ids of rules
-/
namespace BackendRouting

/-- The name of a rule: given by whoever defines the rule, or else generated. Two
generated ids are equal only if they are the same one. -/
inductive RuleId where
  | given (name : String)
  | generated (serial : Nat)
  deriving DecidableEq, Ord, Repr

namespace RuleId

/-- A generated id has no text of its own that a reader could rely on. -/
def text : RuleId → String
  | given name => name
  | generated _ => "<generated>"

def letters : List Char :=
  "0123456789ABCDEFGHIJKLMNOPQRSTUVWXYZabcdefghijklmnopqrstuvwxyz".toList

/-- The last digits of a number in base 62, the last one first. -/
def digits : (count : Nat) → Nat → List Char
  | 0, _ => []
  | count + 1, n => letters.getD (n % 62) '0' :: digits count (n / 62)

/-- The eight letters and digits under which a generated id is stored. -/
def storedName (serial : Nat) : List Char :=
  digits 8 serial

end RuleId

end BackendRouting
