/-!
# The characters of a pattern

Two classes: the characters a quoted value may hold, and the spaces that may
stand between tokens. No character is in both, and a quote is in neither.
-/
namespace BackendRouting.Pattern

def isValueChar (c : Char) : Bool :=
  c.isAlphanum || "_:-~./#?".toList.contains c

/-- The six ASCII spaces: space, tab, line feed, vertical tab, form feed and
carriage return. -/
def isSpace (c : Char) : Bool :=
  c == ' ' || (0x9 ≤ c.toNat && c.toNat ≤ 0xD)

/-- A value that can be written between quotes. -/
def isQuotable (value : String) : Bool :=
  !value.isEmpty && value.toList.all isValueChar

end BackendRouting.Pattern
