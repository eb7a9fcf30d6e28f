/-!
# Blank text

A link, a default backend or a pattern is blank when nothing is left of it once
white space is trimmed. White space is the Unicode property `White_Space`; it is
a larger set than the spaces allowed between the tokens of a pattern.
-/
namespace BackendRouting.Text

/-- The code point ranges of the property `White_Space`, ends included. -/
def whiteSpace : List (Nat × Nat) :=
  [(0x9, 0xD), (0x20, 0x20), (0x85, 0x85), (0xA0, 0xA0), (0x1680, 0x1680), (0x2000, 0x200A),
    (0x2028, 0x2029), (0x202F, 0x202F), (0x205F, 0x205F), (0x3000, 0x3000)]

def isWhiteSpace (c : Char) : Bool :=
  whiteSpace.any fun (first, last) => first ≤ c.toNat && c.toNat ≤ last

/-- Empty after trimming; trimming leaves nothing exactly when every character is
white space. -/
def isBlank (s : String) : Bool :=
  s.toList.all isWhiteSpace

end BackendRouting.Text
