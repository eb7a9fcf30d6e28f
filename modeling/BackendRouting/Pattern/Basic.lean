import BackendRouting.Pattern.Lexicon
import BackendRouting.Pattern.Sentence
import BackendRouting.Rule.Error

/-!
# Patterns

A pattern is a text together with what reading it gave: a condition, or the syntax
errors. A pattern with errors is kept so that it can be shown; it holds for no
message. Two patterns are the same if their texts are.
-/
namespace BackendRouting

structure Pattern where
  text : String
  outcome : Except (List SyntaxError) Condition

namespace Pattern

/-- Read a text; blank text is no pattern. -/
def read? (text : String) : Option (Except (List SyntaxError) Condition) :=
  (Lexicon.standard.tokens? text).map fun tokens =>
    (Condition.ofTokens tokens).mapError ([·])

/-- Syntax errors stay in the pattern. -/
def ofText (text : String) : Except RuleError Pattern :=
  match read? text with
  | some outcome => .ok ⟨text, outcome⟩
  | none => .error .emptyPattern

/-- A pattern with syntax errors is refused, with its text and all its errors. -/
def checked (p : Pattern) : Except RuleError Pattern :=
  match p.outcome with
  | .ok _ => .ok p
  | .error errors => .error (.invalidPattern p.text errors)

def ofValidText (text : String) : Except RuleError Pattern :=
  (ofText text).bind checked

/-- The pattern of a condition, with its canonical text. A condition with a value
that cannot be quoted is refused: its text would not read back. -/
def ofCondition (e : Condition) : Except RuleError Pattern :=
  match e.unquotable? with
  | some value => .error (.invalidValue value)
  | none => .ok ⟨e.render, .ok e⟩

def condition? (p : Pattern) : Option Condition :=
  p.outcome.toOption

def errors (p : Pattern) : List SyntaxError :=
  match p.outcome with
  | .ok _ => []
  | .error errors => errors

def isValid (p : Pattern) : Bool :=
  p.condition?.isSome

/-- A pattern with syntax errors holds for no message. -/
def holds (p : Pattern) (m : Message) : Bool :=
  p.condition?.any (·.holds m)

/-- Both patterns at once. If one of them has errors the joined text is read, so
that its errors are placed in that text. -/
def both (p q : Pattern) : Pattern :=
  let text := "&(" ++ p.text ++ "," ++ q.text ++ ")"
  match p.outcome, q.outcome with
  | .ok left, .ok right => ⟨text, .ok (.join .and left right)⟩
  | _, _ => ⟨text, (read? text).getD (.error [])⟩

def sameText (p q : Pattern) : Bool :=
  p.text == q.text

def describe (p : Pattern) : String :=
  match p.condition? with
  | some e => e.render
  | none => p.text ++ " (invalid)"

end Pattern
end BackendRouting
