/-!
# The part of a text that can be read

A text is read in stretches of 16384 bytes, each ending with the last character that
fits. A stretch that holds a character no document may hold cannot be read at all,
and nothing behind it can.

Line ends are made the same before reading: a carriage return, alone or before a line
feed, and a next-line character count as a line feed. The line and paragraph
separators are line ends too, but stay what they are.
-/
namespace BackendRouting.Yaml

/-- The characters a document may hold. -/
def isPrintable (c : Char) : Bool :=
  [(0x9, 0xA), (0xD, 0xD), (0x20, 0x7E), (0x85, 0x85), (0xA0, 0xFFFD), (0x10000, 0x10FFFF)].any
    fun (first, last) => first ≤ c.toNat && c.toNat ≤ last

def stretchBytes : Nat := 16384

/-- The number of characters before the first stretch that cannot be read, if there is
one: `count` characters stand before the text, `start` before its stretch, and the
stretch has `used` bytes so far. -/
def unreadableFrom? (count start used : Nat) : List Char → Option Nat
  | [] => none
  | c :: cs =>
    let fits := used + c.utf8Size ≤ stretchBytes
    let start := if fits then start else count
    let used := if fits then used + c.utf8Size else c.utf8Size
    if isPrintable c then unreadableFrom? (count + 1) start used cs else some start

def sameBreaks : List Char → List Char
  | '\r' :: '\n' :: cs => '\n' :: sameBreaks cs
  | c :: cs => (if c = '\r' ∨ c = '\u0085' then '\n' else c) :: sameBreaks cs
  | [] => []

/-- The characters that can be read. `whole` tells whether the text ends with them. -/
structure Source where
  chars : List Char
  whole : Bool
  deriving DecidableEq, Repr

def Source.ofText (text : String) : Source :=
  match unreadableFrom? 0 0 0 text.toList with
  | some count => ⟨sameBreaks (text.toList.take count), false⟩
  | none => ⟨sameBreaks text.toList, true⟩

end BackendRouting.Yaml
