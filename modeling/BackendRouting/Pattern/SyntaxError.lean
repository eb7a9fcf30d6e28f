import BackendRouting.Pattern.Token

/-!
# Syntax errors

Reading a pattern stops at the first place where it cannot go on. Either the tokens
end there, or a token stands there that the grammar does not allow.
-/
namespace BackendRouting

/-- `expected` lists the kinds that could have followed. `endsEarly` carries the end
of the last token that was read. -/
inductive SyntaxError where
  | endsEarly (column : Nat) (expected : List Kind)
  | unexpected (found : Token) (expected : List Kind)
  deriving DecidableEq, Repr

namespace SyntaxError

/-- The number of characters before the failure. -/
def column : SyntaxError → Nat
  | endsEarly column _ => column
  | unexpected found _ => found.start

/-- What stands in the way at the failure. -/
inductive Cause where
  | endOfPattern
  | illegalText
  | wrongToken
  deriving DecidableEq, Repr

def cause : SyntaxError → Cause
  | endsEarly _ _ => .endOfPattern
  | unexpected found _ => if found.kind = .illegal then .illegalText else .wrongToken

def found? : SyntaxError → Option Token
  | endsEarly _ _ => none
  | unexpected found _ => some found

def expected : SyntaxError → List Kind
  | endsEarly _ expected | unexpected _ expected => expected

def choices (e : SyntaxError) : String :=
  "expected one of: " ++ ", ".intercalate (e.expected.map Kind.describe)

def message (e : SyntaxError) : String :=
  "parse error at column " ++ toString e.column ++ ": " ++
    match e with
    | endsEarly _ _ => "unexpected end of pattern, " ++ e.choices
    | unexpected found _ =>
      if found.kind = .illegal then "invalid input `" ++ found.text ++ "`, " ++ e.choices
      else e.choices ++ ", but got " ++ found.kind.describe

/-- The pattern with a line under it that marks the column. -/
def render (e : SyntaxError) (pattern : String) : String :=
  pattern ++ "\n" ++ String.ofList (List.replicate e.column ' ') ++ "^---- Column: " ++
    toString e.column

end SyntaxError
end BackendRouting
