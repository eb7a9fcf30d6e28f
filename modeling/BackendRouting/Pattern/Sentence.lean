import BackendRouting.Pattern.SyntaxError

/-!
# Reading a condition from its tokens

A sentence is one of

* `&( condition , condition )` or `|( condition , condition )`,
* `not( condition )`,
* `equals( attribute , value )` or `startswith( attribute , value )`.

Every token is decided by what has been read before it: a `Reading` holds the
conditions that are still open and the place inside the innermost one, and these
alone give the kinds that may follow. The first token of another kind ends the
reading with an error, so there is never more than one.
-/
namespace BackendRouting

/-- A condition that has been opened and whose operand is being read. -/
inductive Frame where
  | left (c : Connective)
  | right (c : Connective) (left : Condition)
  | negated
  deriving DecidableEq, Repr

/-- The word a condition starts with. -/
inductive Operator where
  | connective (c : Connective)
  | comparison (c : Comparison)
  | negation
  deriving DecidableEq, Repr

/-- The place inside the innermost open condition, with what was read of it. -/
inductive Place where
  | beforeOperator
  | afterOperator (operator : Operator)
  | beforeAttr (c : Comparison)
  | afterAttr (c : Comparison) (attr : Attribute)
  | beforeValue (c : Comparison) (attr : Attribute)
  | afterValue (c : Comparison) (attr : Attribute) (value : String)
  | afterCondition (e : Condition)
  deriving DecidableEq, Repr

/-- The frames are listed from the innermost to the outermost. -/
structure Reading where
  frames : List Frame
  place : Place
  deriving DecidableEq, Repr

namespace Reading

def initial : Reading := ⟨[], .beforeOperator⟩

def operators : List Kind :=
  [.connective .and, .connective .or, .comparison .equals, .comparison .startsWith, .negation]

def attributes : List Kind :=
  [.serviceType, .serviceName, .finalRecipient, .fromPartyIdType, .fromPartyId, .fromPartyRole,
    .action].map .attr

/-- The kinds that may follow; `stop` stands for the end of the pattern. -/
def expected (r : Reading) : List Kind :=
  match r.place, r.frames with
  | .beforeOperator, _ => operators
  | .afterOperator _, _ => [.opening]
  | .beforeAttr _, _ => attributes
  | .afterAttr _ _, _ => [.comma]
  | .beforeValue _ _, _ => [.value]
  | .afterValue _ _ _, _ => [.closing]
  | .afterCondition _, [] => [.stop]
  | .afterCondition _, .left _ :: _ => [.comma]
  | .afterCondition _, _ => [.closing]

/-- Take one token, if it may follow. -/
def take? (r : Reading) (t : Token) : Option Reading :=
  match r.place, t.kind, r.frames with
  | .beforeOperator, .connective c, frames => some ⟨frames, .afterOperator (.connective c)⟩
  | .beforeOperator, .comparison c, frames => some ⟨frames, .afterOperator (.comparison c)⟩
  | .beforeOperator, .negation, frames => some ⟨frames, .afterOperator .negation⟩
  | .afterOperator (.connective c), .opening, frames => some ⟨.left c :: frames, .beforeOperator⟩
  | .afterOperator (.comparison c), .opening, frames => some ⟨frames, .beforeAttr c⟩
  | .afterOperator .negation, .opening, frames => some ⟨.negated :: frames, .beforeOperator⟩
  | .beforeAttr c, .attr a, frames => some ⟨frames, .afterAttr c a⟩
  | .afterAttr c a, .comma, frames => some ⟨frames, .beforeValue c a⟩
  | .beforeValue c a, .value, frames => some ⟨frames, .afterValue c a t.unquoted⟩
  | .afterValue c a value, .closing, frames => some ⟨frames, .afterCondition (.test c a value)⟩
  | .afterCondition e, .comma, .left c :: frames => some ⟨.right c e :: frames, .beforeOperator⟩
  | .afterCondition e, .closing, .right c left :: frames =>
    some ⟨frames, .afterCondition (.join c left e)⟩
  | .afterCondition e, .closing, .negated :: frames => some ⟨frames, .afterCondition (.negate e)⟩
  | _, _, _ => none

/-- The condition, if a whole sentence has been read and nothing is open. -/
def condition? (r : Reading) : Option Condition :=
  match r.frames, r.place with
  | [], .afterCondition e => some e
  | _, _ => none

/-- The tokens are at their end, and the last one taken ended at `reached`. -/
def finish (r : Reading) (reached : Nat) : Except SyntaxError Condition :=
  match r.condition? with
  | some e => .ok e
  | none => .error (.endsEarly reached r.expected)

/-- Read on, with the last token taken ending at `reached`. Tokens from the first
`stop` on do not count. -/
def run (r : Reading) (reached : Nat) : List Token → Except SyntaxError Condition
  | [] => r.finish reached
  | t :: tokens =>
    if t.kind = .stop then r.finish reached
    else match r.take? t with
      | some next => next.run t.stop tokens
      | none => .error (.unexpected t r.expected)

end Reading

/-- The condition that the tokens spell. -/
def Condition.ofTokens (tokens : List Token) : Except SyntaxError Condition :=
  Reading.initial.run 0 tokens

end BackendRouting
