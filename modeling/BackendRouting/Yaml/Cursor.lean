import BackendRouting.Yaml.Source

/-!
# A place in a text
-/
namespace BackendRouting.Yaml

def isBreak (c : Char) : Bool :=
  c == '\n' || c == '\u2028' || c == '\u2029'

def isGap (c : Char) : Bool :=
  c == ' ' || c == '\t' || isBreak c

/-- The characters of names: of anchors, of tag handles and of directives. -/
def isNameChar (c : Char) : Bool :=
  c.isAlphanum || c == '_' || c == '-'

/-- What is left of the text, and how much stands before it. `whole` tells whether the
text ends where `rest` ends; else there is more, which cannot be read. -/
structure Cursor where
  rest : List Char
  whole : Bool
  line : Nat
  column : Nat
  bytes : Nat
  deriving Repr

namespace Cursor

def atStart (text : Source) : Cursor := ⟨text.chars, text.whole, 0, 0, 0⟩

/-- Past one character; the end of the text stays where it is. -/
def next (c : Cursor) : Cursor :=
  match c.rest with
  | [] => c
  | ch :: rest =>
    let bytes := c.bytes + ch.utf8Size
    if isBreak ch then { c with rest, bytes, line := c.line + 1, column := 0 }
    else { c with rest, bytes, column := c.column + 1 }

def advance (c : Cursor) : Nat → Cursor
  | 0 => c
  | n + 1 => c.next.advance n

/-- The characters from here on that satisfy `p`, and the place after them. -/
def span (c : Cursor) (p : Char → Bool) : List Char × Cursor :=
  let taken := c.rest.takeWhile p
  (taken, c.advance taken.length)

theorem rest_next (c : Cursor) : c.next.rest = c.rest.tail := by
  unfold next
  split
  · simp_all
  · split <;> simp_all

theorem rest_advance (c : Cursor) (n : Nat) : (c.advance n).rest = c.rest.drop n := by
  induction n generalizing c with
  | zero => rfl
  | succ n ih => rw [advance, ih, rest_next, List.drop_tail]

theorem length_rest_advance (c : Cursor) (n : Nat) :
    (c.advance n).rest.length = c.rest.length - n := by
  rw [rest_advance, List.length_drop]

theorem length_rest_advance_le (c : Cursor) (n : Nat) :
    (c.advance n).rest.length ≤ c.rest.length := by
  rw [length_rest_advance]; omega

theorem length_rest_advance_lt {c : Cursor} {n : Nat} (hpos : 0 < n) (hrest : c.rest ≠ []) :
    (c.advance n).rest.length < c.rest.length := by
  have := List.length_pos_iff.2 hrest
  rw [length_rest_advance]; omega

theorem length_rest_next_lt {c : Cursor} {ch : Char} {cs : List Char} (h : c.rest = ch :: cs) :
    c.next.rest.length < c.rest.length := by
  simp [rest_next, h]

/-- One of the next `n` characters cannot be read. Before the end of the whole text
fewer than `n` characters are enough. -/
def lacks (c : Cursor) (n : Nat) : Bool :=
  !c.whole && (c.rest.take n).length < n

/-- The end of the text ends the last line. -/
def endLine (c : Cursor) : Cursor :=
  if c.column = 0 then c else { c with line := c.line + 1, column := 0 }

/-- Nothing but a gap or the end of the text follows. -/
def isGapOrEnd (c? : Option Char) : Bool :=
  c?.all isGap

/-- The mark `---` or `...` at the start of a line. -/
def atDocumentMark (c : Cursor) : Bool :=
  c.column == 0 && (c.rest.take 3 == ['-', '-', '-'] || c.rest.take 3 == ['.', '.', '.']) &&
    isGapOrEnd c.rest[3]?

/-- The start of the next line. Only blanks and a comment may be left in this one. -/
def nextLine? (c : Cursor) : Option Cursor :=
  let afterBlanks := (c.span fun ch => ch == ' ' || ch == '\t').2
  let atEnd := if afterBlanks.rest.head? = some '#' then (afterBlanks.span fun ch => !isBreak ch).2
    else afterBlanks
  if atEnd.rest.head?.all isBreak then some atEnd.next else none

end Cursor
end BackendRouting.Yaml
