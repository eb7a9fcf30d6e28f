import BackendRouting.Yaml.Lexeme

/-!
# Directives

A line that starts with a percent sign says which version of the format a document
has, as in `%YAML 1.2`, or what a handle stands for in tags, as in `%TAG !e! stem`.
-/
namespace BackendRouting.Yaml.Directive

def skipBlanks (cs : List Char) : List Char :=
  cs.dropWhile fun c => c == ' ' || c == '\t'

/-- A number of at most nine digits. -/
def number? (cs : List Char) : Option (Nat × List Char) :=
  let digits := cs.takeWhile Char.isDigit
  if 9 < digits.length then none
  else (natural? 10 digits).map fun n => (n, cs.dropWhile Char.isDigit)

def version? (cs : List Char) : Option (Lexeme × List Char) := do
  let (major, left) ← number? cs
  match left with
  | '.' :: left =>
    let (minor, left) ← number? left
    return (.version major minor, left)
  | _ => none

def tagHandle? (cs : List Char) : Option (Lexeme × List Char) := do
  let (handle, left) := Tag.splitHandle cs
  if handle.getLast? ≠ some '!' || skipBlanks left = left then none
  else
    let (octets, left) ← Tag.uri true (skipBlanks left)
    if octets = [] || !Cursor.isGapOrEnd left.head? then none
    else return (.tagHandle (String.ofList handle) (Tag.text octets), left)

/-- The directive after a percent sign, and what is left behind its last parameter. -/
def read? (cs : List Char) : Option (Lexeme × List Char) :=
  let left := cs.dropWhile isNameChar
  if !Cursor.isGapOrEnd left.head? then none
  else match String.ofList (cs.takeWhile isNameChar) with
    | "YAML" => version? (skipBlanks left)
    | "TAG" => tagHandle? (skipBlanks left)
    | _ => none

end BackendRouting.Yaml.Directive
