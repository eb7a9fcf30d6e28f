import BackendRouting.Yaml.Cursor
import BackendRouting.Yaml.Integer

/-!
# The texts of scalars

A scalar is written plain, between quotes, or as an indented block. Lines of a plain
or quoted scalar are folded: a single line end becomes a space, and of more line ends
the first one is dropped.
-/
namespace BackendRouting.Yaml

/-- What a gap inside a plain or quoted scalar stands for. Blanks next to a line end
do not count. -/
def fold (gap : List Char) : List Char :=
  match gap.dropWhile fun c => !isBreak c with
  | [] => gap
  | b :: more =>
    let further := more.filter isBreak
    if b ≠ '\n' then b :: further else if further = [] then [' '] else further

/-! ## Plain scalars -/

/-- The characters up to the end of a word of a plain scalar. A colon belongs to the
word unless a gap follows; brackets and commas end a word only inside brackets. -/
def plainWord (inFlow : Bool) : List Char → List Char
  | [] => []
  | c :: cs =>
    if isGap c || (c == ':' && Cursor.isGapOrEnd cs.head?) ||
        (inFlow && ",[]\x7b\x7d".toList.contains c) then []
    else c :: plainWord inFlow cs

/-- Inside brackets a colon must not stand before a bracket, a comma or a question
mark. -/
def hasBadColon : List Char → Bool
  | c :: next :: cs =>
    (c == ':' && ",?[]\x7b\x7d".toList.contains next) || hasBadColon (next :: cs)
  | _ => false

/-- A tab left of `minColumn` in a line of the gap, where only spaces may indent. -/
def hasBadTab (minColumn : Nat) : (afterBreak : Bool) → (column : Nat) → List Char → Bool
  | _, _, [] => false
  | afterBreak, column, c :: cs =>
    if isBreak c then hasBadTab minColumn true 0 cs
    else (afterBreak && column < minColumn && c == '\t') ||
      hasBadTab minColumn afterBreak (column + 1) cs

/-- A scalar that has been read: its text, the gap after it, and the place after that. -/
structure Plain where
  text : List Char
  gap : List Char
  after : Cursor

/-- The words from `c` on as long as they belong to the scalar, each after what the gap
before it stands for; `gap` is the one before `c`. Whether a word belongs to the scalar
shows in the characters after it, which have to be readable. -/
def plainWords (inFlow : Bool) (minColumn : Nat) (gap : List Char) (c : Cursor) :
    Option Plain :=
  let word := plainWord inFlow c.rest
  if c.lacks 4 then none
  else if c.atDocumentMark || c.rest.head? == some '#' || word.isEmpty then some ⟨[], gap, c⟩
  else
    let text := fold gap ++ word
    let afterWord := c.advance word.length
    let gap := afterWord.rest.takeWhile isGap
    let afterGap := afterWord.advance gap.length
    if afterWord.lacks 2 || (inFlow && hasBadColon (word ++ afterWord.rest.take 1)) ||
        hasBadTab minColumn false afterWord.column gap || afterGap.lacks 1 then
      none
    else if _h : gap = [] then some ⟨text, [], afterWord⟩
    else if !inFlow && afterGap.column < minColumn then some ⟨text, gap, afterGap⟩
    else (plainWords inFlow minColumn gap afterGap).map fun more =>
      { more with text := text ++ more.text }
termination_by c.rest.length
decreasing_by
  have hrest : afterWord.rest ≠ [] := fun h => _h (by simp [gap, h])
  exact Nat.lt_of_lt_of_le (Cursor.length_rest_advance_lt (List.length_pos_iff.2 _h) hrest)
    (Cursor.length_rest_advance_le c _)

/-! ## Quoted scalars -/

/-- The escapes of one character. -/
def simpleEscapes : List (Char × Char) :=
  [('0', '\x00'), ('a', '\x07'), ('b', '\x08'), ('t', '\t'), ('\t', '\t'), ('n', '\n'),
    ('v', '\x0b'), ('f', '\x0c'), ('r', '\r'), ('e', '\x1b'), (' ', ' '), ('"', '"'), ('/', '/'),
    ('\\', '\\'), ('N', '\u0085'), ('_', '\u00a0'), ('L', '\u2028'), ('P', '\u2029')]

/-- The character that an escape stands for and the number of characters it takes
after its backslash. -/
def escape? : List Char → Option (Char × Nat)
  | [] => none
  | c :: cs =>
    match simpleEscapes.lookup c, [('x', 2), ('u', 4), ('U', 8)].lookup c with
    | some value, _ => some (value, 1)
    | none, some digits =>
      let code := cs.take digits
      if code.length < digits then none
      else (natural? 16 code).bind fun n =>
        if h : n.isValidChar then some (Char.ofNatAux n h, digits + 1) else none
    | none, none => none

/-- What the next characters of a quoted scalar are. A new word begins after a gap. -/
inductive Piece where
  | text (cs : List Char) (length : Nat)
  | gap (cs : List Char) (length : Nat)
  | closing
  | bad

/-- A backslash before a line end joins the lines; of the gap after it only further
line ends count. -/
def quotedPiece (double : Bool) : List Char → Piece
  | [] => .bad
  | c :: cs =>
    if isGap c then
      let gap := (c :: cs).takeWhile isGap
      .gap (fold gap) gap.length
    else if double && c == '"' then .closing
    else if double && c == '\\' then
      if cs.head?.any isBreak then
        let gap := cs.takeWhile isGap
        .gap (gap.tail.filter isBreak) (gap.length + 1)
      else match escape? cs with
        | some (value, length) => .text [value] (length + 1)
        | none => .bad
    else if !double && c == '\'' then
      if cs.head? == some '\'' then .text ['\''] 2 else .closing
    else .text [c] 1

/-- The text up to the closing quote, and the place after it. No mark of a document
may stand where a word begins. -/
def quoted (double wordBegins : Bool) (c : Cursor) : Option (List Char × Cursor) :=
  if wordBegins && (c.lacks 4 || c.atDocumentMark) then none
  else match quotedPiece double c.rest with
    | .bad => none
    | .closing => if c.lacks 2 then none else some ([], c.next)
    | .text cs length =>
      if _h : 0 < length ∧ c.rest ≠ [] then
        (quoted double false (c.advance length)).map fun (rest, after) => (cs ++ rest, after)
      else none
    | .gap cs length =>
      if _h : 0 < length ∧ c.rest ≠ [] then
        (quoted double true (c.advance length)).map fun (rest, after) => (cs ++ rest, after)
      else none
termination_by c.rest.length
decreasing_by
  all_goals exact Cursor.length_rest_advance_lt _h.1 _h.2

/-! ## Block scalars -/

/-- What becomes of the line ends at the end of a block. -/
inductive Chomping where
  | strip
  | clip
  | keep
  deriving DecidableEq, Repr

/-- The marks after `|` or `>`: an indentation of one digit and a chomping, in either
order. -/
structure BlockHeader where
  chomping : Chomping
  indent? : Option Nat
  deriving DecidableEq, Repr

def chomping? (c : Char) : Option Chomping :=
  if c = '+' then some .keep else if c = '-' then some .strip else none

def indentDigit? (c : Char) : Option Nat :=
  if c.isDigit then some (c.toNat - '0'.toNat) else none

/-- The header and its length. An indentation of zero is refused by `header?`. -/
def readHeader (cs : List Char) : BlockHeader × Nat :=
  match cs.head?.bind chomping?, cs.head?.bind indentDigit?, cs[1]? with
  | some chomping, _, second =>
    match second.bind indentDigit? with
    | some n => (⟨chomping, some n⟩, 2)
    | none => (⟨chomping, none⟩, 1)
  | none, some n, second =>
    match second.bind chomping? with
    | some chomping => (⟨chomping, some n⟩, 2)
    | none => (⟨.clip, some n⟩, 1)
  | none, none, _ => (⟨.clip, none⟩, 0)

/-- The header and the place of the first line. -/
def header? (c : Cursor) : Option (BlockHeader × Cursor) :=
  let (header, length) := readHeader c.rest
  if header.indent? = some 0 then none
  else ((c.advance length).nextLine?).map fun first => (header, first)

/-- Past at most `n` spaces. -/
def skipSpaces (c : Cursor) (n : Nat) : Cursor :=
  c.advance ((c.rest.take n).takeWhile (· == ' ')).length

/-- The line ends of the empty lines from here on, and the place, at most `indent`
columns in, where the next line starts. A tab must not stand in the indentation. -/
def emptyLines (indent : Nat) (c : Cursor) : Option (List Char × Cursor) :=
  let line := skipSpaces c (indent - c.column)
  match _h : line.rest with
  | [] => some ([], line)
  | ch :: _ =>
    if ch = '\t' ∧ line.column < indent then none
    else if isBreak ch then
      (emptyLines indent line.next).map fun (breaks, after) => (ch :: breaks, after)
    else some ([], line)
termination_by c.rest.length
decreasing_by
  have hline : line.rest.length ≤ c.rest.length := Cursor.length_rest_advance_le c _
  rw [_h, List.length_cons] at hline
  rw [Cursor.rest_next, _h, List.tail_cons]
  exact hline

/-- The largest number of spaces before the first character that is none, over the
empty lines from here on and the line after them; `none` if that character is a tab. -/
def deepestStart (column : Nat) : List Char → Option Nat
  | [] => some column
  | c :: cs =>
    if c = ' ' then deepestStart (column + 1) cs
    else if c = '\t' then none
    else if isBreak c then (deepestStart 0 cs).map (max column)
    else some column

/-- A line of a block with its line end and those of the empty lines after it. -/
structure BlockLine where
  text : List Char
  lineEnd : List Char
  emptyLines : List Char
  deriving DecidableEq, Repr

theorem length_rest_emptyLines_le {indent : Nat} {c : Cursor} {breaks : List Char}
    {after : Cursor} (h : emptyLines indent c = some (breaks, after)) :
    after.rest.length ≤ c.rest.length := by
  fun_induction emptyLines indent c generalizing breaks with
  | case1 c =>
    obtain ⟨_, rfl⟩ := Prod.mk.inj (Option.some.inj h)
    exact Cursor.length_rest_advance_le c _
  | case2 => simp at h
  | case3 c line ch cs hrest =>
    rename_i ih
    obtain ⟨more, hmore, heq⟩ := Option.map_eq_some_iff.1 h
    obtain ⟨_, rfl⟩ := Prod.mk.inj heq
    have hline : line.rest.length ≤ c.rest.length := Cursor.length_rest_advance_le c _
    have hnext := Cursor.length_rest_next_lt hrest
    exact Nat.le_trans (ih hmore) (Nat.le_trans (Nat.le_of_lt hnext) hline)
  | case4 c =>
    obtain ⟨_, rfl⟩ := Prod.mk.inj (Option.some.inj h)
    exact Cursor.length_rest_advance_le c _

/-- The lines that are indented far enough. -/
def blockLines (indent : Nat) (c : Cursor) : Option (List BlockLine × Cursor) :=
  if _h : c.column = indent ∧ c.rest ≠ [] then
    let text := c.rest.takeWhile fun ch => !isBreak ch
    let atEnd := c.advance text.length
    match _hempty : emptyLines indent atEnd.next with
    | none => none
    | some (empty, after) =>
      (blockLines indent after).map fun (lines, last) =>
        (⟨text, atEnd.rest.take 1, empty⟩ :: lines, last)
  else some ([], c)
termination_by c.rest.length
decreasing_by
  have hafter := length_rest_emptyLines_le _hempty
  have hpos := List.length_pos_iff.2 _h.2
  rw [Cursor.rest_next, List.length_tail, Cursor.length_rest_advance] at hafter
  omega

namespace BlockLine

def startsBlank (l : BlockLine) : Bool :=
  l.text.head?.any fun c => c == ' ' || c == '\t'

/-- What stands between two lines. When folding, a line feed between lines that do
not start with a blank becomes a space, or nothing before empty lines. -/
def join (folded : Bool) (l next : BlockLine) : List Char :=
  if folded && l.lineEnd == ['\n'] && !l.startsBlank && !next.startsBlank then
    if l.emptyLines = [] then [' '] else l.emptyLines
  else l.lineEnd ++ l.emptyLines

/-- The lines with all line ends but those after the last one. -/
def joinAll (folded : Bool) : List BlockLine → List Char
  | [] => []
  | [l] => l.text
  | l :: next :: lines => l.text ++ l.join folded next ++ joinAll folded (next :: lines)

/-- The line ends at the end of a block whose first lines are empty as in `leading`. -/
def tail (chomping : Chomping) (leading : List Char) (lines : List BlockLine) : List Char :=
  match chomping, lines.getLast? with
  | .strip, _ => []
  | .clip, some l => l.lineEnd
  | .clip, none => []
  | .keep, some l => l.lineEnd ++ l.emptyLines
  | .keep, none => leading

end BlockLine

/-- The text of a block that starts after its `|` or `>`, inside a collection whose
entries stand left of `minColumn`. -/
def block (folded : Bool) (minColumn : Nat) (c : Cursor) : Option (List Char × Cursor) := do
  let (header, first) ← header? c
  let indent ← match header.indent? with
    | some n => some (minColumn - 1 + n)
    | none => (deepestStart 0 first.rest).map fun deepest => max (max deepest minColumn) 1
  let (leading, start) ← emptyLines indent first
  let (lines, after) ← blockLines indent start
  let leadingText := if lines = [] then [] else leading
  return (leadingText ++ BlockLine.joinAll folded lines ++
    BlockLine.tail header.chomping leading lines, after)

end BackendRouting.Yaml
