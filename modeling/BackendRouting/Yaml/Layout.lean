import BackendRouting.Yaml.Directive
import BackendRouting.Yaml.Scalar

/-!
# From text to lexemes

Two things are only known from the layout of the text. The entries of a block
collection stand in one column, so the column of a line tells which collections it
closes and whether it opens one. And a key is known as such only by the colon after
it, on the same line and at most 1024 bytes on; until then its place is kept as a
`KeyPlace`, where the lexemes that open the mapping and mark the key go in.

Where the text cannot be read on, the lexemes up to the first open key place are what
was read: what follows it may still turn out to be a key. Of the lexemes that are
found in one go, such as the ends of all the collections that a line closes, either
all are read or none.
-/
namespace BackendRouting.Yaml

/-- A place where a key may have begun. In a block mapping a line that starts in the
column of the entries must be a key: there the place is `required` to become one. -/
structure KeyPlace where
  lexemesBefore : Nat
  line : Nat
  column : Nat
  bytes : Nat
  required : Bool
  deriving DecidableEq, Repr

/-- The state of reading. `columns` are those of the open block collections and
`outer` the key places outside each open bracket, both from the innermost on;
`lexemes` has the latest one first. -/
structure Layout where
  cursor : Cursor
  columns : List Nat
  keyPlace? : Option KeyPlace
  outer : List (Option KeyPlace)
  keyAllowed : Bool
  lexemes : List Lexeme

namespace Layout

def atStart (c : Cursor) : Layout := ⟨c, [], none, [], true, []⟩

def inFlow (s : Layout) : Bool :=
  !s.outer.isEmpty

/-- The least column at which something may stand inside the innermost block
collection. -/
def minColumn (s : Layout) : Nat :=
  match s.columns with
  | [] => 0
  | column :: _ => column + 1

def push (s : Layout) (l : Lexeme) : Layout :=
  { s with lexemes := l :: s.lexemes }

/-- Push a lexeme that takes `length` characters. -/
def pushPast (s : Layout) (length : Nat) (l : Lexeme) : Layout :=
  { s with cursor := s.cursor.advance length, lexemes := l :: s.lexemes }

/-- The next `n` characters have to be readable. -/
def ensure (s : Layout) (n : Nat) : Option Layout :=
  if s.cursor.lacks n then none else some s

/-- Put lexemes, given in their order, in front of those from a place on. -/
def insertAt (s : Layout) (lexemesBefore : Nat) (new : List Lexeme) : Layout :=
  let later := s.lexemes.length - lexemesBefore
  { s with lexemes := s.lexemes.take later ++ new.reverse ++ s.lexemes.drop later }

/-- What has been read for certain, in the order of the text. -/
def settled (s : Layout) : List Lexeme :=
  let places := (s.keyPlace? :: s.outer).filterMap id
  let certain := places.foldl (fun n place => min n place.lexemesBefore) s.lexemes.length
  s.lexemes.reverse.take certain

/-! ## Key places -/

/-- No key begins at the key place any more. -/
def dropKeyPlace (s : Layout) : Option Layout :=
  if s.keyPlace?.any (·.required) then none else some { s with keyPlace? := none }

/-- A key may begin here. -/
def markKeyPlace (s : Layout) : Option Layout :=
  if s.keyAllowed then
    let c := s.cursor
    let place := ⟨s.lexemes.length, c.line, c.column, c.bytes,
      !s.inFlow && s.columns.head? == some c.column⟩
    s.dropKeyPlace.map ({ · with keyPlace? := some place })
  else some s

def KeyPlace.isStale (place : KeyPlace) (c : Cursor) : Bool :=
  place.line < c.line || place.bytes + 1024 < c.bytes

/-- Give up the key places that are too far back to become keys. -/
def dropStale (s : Layout) : Option Layout :=
  let isStale (place? : Option KeyPlace) := place?.any (KeyPlace.isStale · s.cursor)
  let places := s.keyPlace? :: s.outer
  if places.any fun place? => isStale place? && place?.any (·.required) then none
  else if places.any isStale then
    let keep (place? : Option KeyPlace) := if isStale place? then none else place?
    some { s with keyPlace? := keep s.keyPlace?, outer := s.outer.map keep }
  else some s

/-! ## Columns -/

/-- Close the block collections to the right of a column; brackets keep everything
open. -/
def closeBlocks (s : Layout) (isRight : Nat → Bool) : Layout :=
  if s.inFlow then s
  else
    let closed := s.columns.takeWhile isRight
    { s with columns := s.columns.drop closed.length,
             lexemes := closed.map (fun _ => .closeBlock) ++ s.lexemes }

/-- Does an entry in this column open a block collection? -/
def opensAt (s : Layout) (column : Nat) : Bool :=
  !s.inFlow && s.minColumn ≤ column

/-- Open a block collection here, if an entry in this column does so. -/
def openBlock (s : Layout) (c : Collection) : Layout :=
  if s.opensAt s.cursor.column then
    { s with columns := s.cursor.column :: s.columns, lexemes := .openBlock c :: s.lexemes }
  else s

/-! ## Gaps -/

/-- Past spaces, comments and line ends. After a line end a key may begin; where one
may begin a tab is not skipped. A byte order mark at the start of a line is skipped,
but takes a column. -/
def skipGap (inFlow keyAllowed inComment : Bool) (c : Cursor) : Bool × Cursor :=
  match _h : c.rest with
  | [] => (keyAllowed, c)
  | ch :: _ =>
    if isBreak ch then skipGap inFlow (keyAllowed || !inFlow) false c.next
    else if inComment || ch == ' ' || (ch == '\t' && (inFlow || !keyAllowed)) then
      skipGap inFlow keyAllowed inComment c.next
    else if ch == '#' then skipGap inFlow keyAllowed true c.next
    else if ch == '\ufeff' && c.column == 0 then skipGap inFlow keyAllowed false c.next
    else (keyAllowed, c)
termination_by c.rest.length
decreasing_by all_goals exact Cursor.length_rest_next_lt _h

/-- Go to the next lexeme, which closes the block collections to its right. -/
def toLexeme? (s : Layout) : Option Layout :=
  let (keyAllowed, cursor) := skipGap s.inFlow s.keyAllowed false s.cursor
  let s := { s with keyAllowed, cursor }
  s.dropStale.map (closeBlocks · (cursor.column < ·))

/-! ## Marks -/

def openFlow (s : Layout) (c : Collection) : Option Layout :=
  s.markKeyPlace.map fun s =>
    { s with keyPlace? := none, outer := s.keyPlace? :: s.outer, keyAllowed := true }.pushPast 1
      (.openFlow c)

def closeFlow (s : Layout) (c : Collection) : Option Layout :=
  s.dropKeyPlace.map fun s =>
    { s with keyPlace? := s.outer.head?.join, outer := s.outer.tail,
             keyAllowed := false }.pushPast 1 (.closeFlow c)

def comma (s : Layout) : Option Layout :=
  s.dropKeyPlace.map fun s => { s with keyAllowed := true }.pushPast 1 .comma

/-- The dash of a sequence entry. -/
def entry (s : Layout) : Option Layout :=
  if !s.inFlow && !s.keyAllowed then none
  else (s.openBlock .sequence).dropKeyPlace.map fun s =>
    { s with keyAllowed := true }.pushPast 1 .entry

/-- The question mark in front of a key. -/
def key (s : Layout) : Option Layout :=
  if !s.inFlow && !s.keyAllowed then none
  else (s.openBlock .mapping).dropKeyPlace.map fun s =>
    { s with keyAllowed := !s.inFlow }.pushPast 1 .key

/-- The colon. What stands at the key place, if there is one, is its key. -/
def value (s : Layout) : Option Layout :=
  match s.keyPlace? with
  | some place =>
    let opens := s.opensAt place.column
    let marks := if opens then [.openBlock .mapping, .key] else [.key]
    let columns := if opens then place.column :: s.columns else s.columns
    some ({ s.insertAt place.lexemesBefore marks with
            columns, keyPlace? := none, keyAllowed := false }.pushPast 1 .value)
  | none =>
    if !s.inFlow && !s.keyAllowed then none
    else some ({ s.openBlock .mapping with keyAllowed := !s.inFlow }.pushPast 1 .value)

/-- What stands outside of documents closes all block collections. -/
def leaveDocument (s : Layout) : Option Layout :=
  (s.closeBlocks fun _ => true).dropKeyPlace.map ({ · with keyAllowed := false })

def documentMark (s : Layout) (l : Lexeme) : Option Layout :=
  s.leaveDocument.map (·.pushPast 3 l)

def textEnd (s : Layout) : Option Layout :=
  s.leaveDocument.map fun s => { s with cursor := s.cursor.endLine }.push .textEnd

def directive (s : Layout) : Option Layout := do
  let s ← s.leaveDocument
  let rest := s.cursor.rest.drop 1
  let (lexeme, left) ← Directive.read? rest
  let cursor ← (s.cursor.advance (1 + rest.length - left.length)).nextLine?
  ({ s with cursor }.push lexeme).ensure 1

/-! ## Scalars and what may stand before them -/

/-- An anchor or a reference. -/
def named (s : Layout) (lexeme : String → Lexeme) : Option Layout := do
  let name := (s.cursor.rest.drop 1).takeWhile isNameChar
  let after := s.cursor.rest[name.length + 1]?
  if name.isEmpty || !after.all (fun c => isGap c || "?:,]\x7d%@`".toList.contains c) then none
  else
    let s ← s.markKeyPlace
    let s := { s with keyAllowed := false }
    (s.pushPast (name.length + 1) (lexeme (String.ofList name))).ensure 1

def tag (s : Layout) : Option Layout := do
  let (tag, left) ← Tag.read? s.cursor.rest
  if !(Cursor.isGapOrEnd left.head? || (s.inFlow && left.head? == some ',')) then none
  else
    let s ← s.markKeyPlace
    let length := s.cursor.rest.length - left.length
    ({ s with keyAllowed := false }.pushPast length (.tag tag)).ensure 1

def quotedScalar (s : Layout) (double : Bool) : Option Layout := do
  let s ← s.markKeyPlace
  let (text, cursor) ← quoted double true s.cursor.next
  return { s with cursor, keyAllowed := false }.push (.scalar .quoted (String.ofList text))

/-- A key may begin in the line after a block. -/
def blockScalar (s : Layout) (folded : Bool) : Option Layout := do
  let s ← s.dropKeyPlace
  let (text, cursor) ← block folded s.minColumn s.cursor.next
  let style := if folded then .folded else .literal
  ({ s with cursor, keyAllowed := true }.push (.scalar style (String.ofList text))).ensure 1

/-- A key may begin where a plain scalar has ended with its line. -/
def plainScalar (s : Layout) : Option Layout := do
  let s ← s.markKeyPlace
  let scalar ← plainWords s.inFlow s.minColumn [] s.cursor
  return { s with cursor := scalar.after, keyAllowed := scalar.gap.any isBreak }.push
    (.scalar .plain (String.ofList scalar.text))

/-! ## The whole text -/

/-- Take the lexeme at the cursor, which stands on no gap. What it is shows in the
next four characters. -/
def take? (s : Layout) : Option Layout :=
  match s.cursor.rest with
  | [] => if s.cursor.whole then s.textEnd else none
  | c :: cs =>
    let alone := Cursor.isGapOrEnd cs.head?
    if s.cursor.lacks 4 then none
    else if s.cursor.column == 0 && c == '%' then s.directive
    else if s.cursor.atDocumentMark then
      s.documentMark (if c == '-' then .documentStart else .documentEnd)
    else if c == '[' then s.openFlow .sequence
    else if c == '\x7b' then s.openFlow .mapping
    else if c == ']' then s.closeFlow .sequence
    else if c == '\x7d' then s.closeFlow .mapping
    else if c == ',' then s.comma
    else if c == '-' && alone then s.entry
    else if c == '?' && (s.inFlow || alone) then s.key
    else if c == ':' && (s.inFlow || alone) then s.value
    else if c == '*' then s.named .reference
    else if c == '&' then s.named .anchor
    else if c == '!' then s.tag
    else if c == '\'' || c == '"' then s.quotedScalar (c == '"')
    else if c == '|' || c == '>' then if s.inFlow then none else s.blockScalar (c == '>')
    else if "%@`\t".toList.contains c then none
    else s.plainScalar

/-- Go to the next lexeme and take it. A key place that has become stale with it is
noticed at once. -/
def advance? (s : Layout) : Option Layout :=
  (s.toLexeme?.bind take?).bind dropStale

/-- All lexemes from here on. Every lexeme but the end takes a character, so `fuel`
need not exceed the number of characters by more than one. -/
def readAll (s : Layout) : (fuel : Nat) → List Lexeme
  | 0 => s.settled
  | fuel + 1 =>
    match s.advance? with
    | none => s.settled
    | some next =>
      if next.lexemes.head? = some .textEnd then next.lexemes.reverse else next.readAll fuel

end Layout

/-- The lexemes of a text, up to the first place where it cannot be read on. -/
def Lexeme.ofText (text : String) : List Lexeme :=
  let source := Source.ofText text
  (Layout.atStart (.atStart source)).readAll (source.chars.length + 1)

end BackendRouting.Yaml
