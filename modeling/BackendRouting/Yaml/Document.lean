import BackendRouting.Yaml.Layout

/-!
# From lexemes to a tree

A node is a scalar, a block collection between its opening and closing lexemes, a
flow collection in brackets, or a reference to an anchored node. Where a node is due
and none can start, the node is absent. A block sequence may stand in the column of
the key above it, and then has no opening and closing lexemes.

`ofText` reads a text of one document. What cannot be read leaves a `cut` in the tree,
behind everything that stands before it. That a node is absent, or that a collection
without a closing lexeme is at its end, shows only in the lexeme after it.
-/
namespace BackendRouting.Yaml

/-- The lexemes that are left, the declared handles, and the anchors. `names` tells
which anchor a name means now, each name once. `begun` has the anchors in the order of
their nodes, latest first, and `ended` the nodes that are complete, by their place in
that order. -/
structure Remainder where
  lexemes : List Lexeme
  handles : List (String × String)
  names : List (String × Nat)
  begun : List Nat
  ended : List (Nat × Node)

abbrev Reader := StateM Remainder

namespace Reader

def peek : Reader (Option Lexeme) := do
  return (← get).lexemes.head?

def skip : Reader Unit :=
  modify fun r => { r with lexemes := r.lexemes.tail }

/-- Skip the next lexeme if it is this one. -/
def skip? (l : Lexeme) : Reader Bool := do
  if (← peek) = some l then skip; return true else return false

/-- Nothing more can be read. -/
def cut : Reader Node := do
  modify fun r => { r with lexemes := [] }
  return .cut

/-- A node is due; it is absent before one of these lexemes. -/
def orAbsent (stops : List Lexeme) (node : Reader Node) : Reader Node := do
  match ← peek with
  | some l => if stops.contains l then return .absent else node
  | none => cut

/-- The node that is due is absent, if there is a lexeme that shows it. -/
def absent : Reader Node := do
  if (← peek).isSome then return .absent else cut

/-! ## What may stand before a node -/

structure Properties where
  anchor? : Option String
  tag? : Option Tag

def anchor? : Reader (Option String) := do
  match ← peek with
  | some (.anchor name) => skip; return some name
  | _ => return none

def tag? : Reader (Option Tag) := do
  match ← peek with
  | some (.tag t) => skip; return some t
  | _ => return none

/-- One anchor and one tag may stand before a node, in either order. -/
def properties : Reader Properties := do
  match ← anchor? with
  | some name => return ⟨some name, ← tag?⟩
  | none =>
    match ← tag? with
    | some t => return ⟨← anchor?, some t⟩
    | none => return ⟨none, none⟩

/-- An anchored node begins. The number of its anchor is the number of names so far:
a new name has a number of its own, but a name that is used again takes the number
that the next new name will have too. The place of the node in the order is given. -/
def beginAnchored (name : String) : Reader Nat := do
  let r ← get
  let anchor := r.names.length
  let names := (name, anchor) :: r.names.filter (·.1 ≠ name)
  set { r with names, begun := anchor :: r.begun }
  return r.begun.length

/-- An anchored node is complete. Where the text breaks off before it there is none. -/
def endAnchored (place : Nat) : Node → Reader Unit
  | .cut => return
  | node => modify fun r => { r with ended := (place, node) :: r.ended }

/-- Read a node under its anchor, if it has one. -/
def anchored (anchor? : Option String) (node : Reader Node) : Reader Node := do
  match anchor? with
  | some name =>
    let place ← beginAnchored name
    let node ← node
    endAnchored place node
    return node
  | none => node

/-! ## Nodes -/

/-- Skip the comma that is due between entries. -/
def comma (first : Bool) : Reader Bool :=
  if first then return true else skip? .comma

/-- Where a node is due: inside a flow collection, as an entry of a block sequence, or
in a block mapping, where a sequence may stand in the column of the key. -/
inductive Site where
  | flow
  | item
  | field
  deriving DecidableEq, Repr

/-- A lone exclamation mark says that a scalar has no tag. -/
def scalarTag? (tag? : Option String) : Option String :=
  tag?.filter (· ≠ "!")

mutual

/-- A reference, or a node with its properties. A name that no anchor has, or a handle
that is not declared, cannot be read. -/
def node (site : Site) : (fuel : Nat) → Reader Node
  | 0 => cut
  | fuel + 1 => do
    if let some (.reference name) ← peek then
      skip
      match (← get).names.lookup name with
      | some anchor => return .reference anchor
      | none => cut
    else
      let p ← properties
      let handles := (← get).handles
      match p.tag?, p.tag?.bind (·.resolve? handles) with
      | some _, none => cut
      | _, tag? => anchored p.anchor? (content site (p.anchor?.isSome || tag?.isSome) tag? fuel)

def content (site : Site) (hasProperties : Bool) (tag? : Option String) :
    (fuel : Nat) → Reader Node
  | 0 => cut
  | fuel + 1 => do
    match ← peek, site with
    | some .entry, .field => return .sequence (← alignedItems fuel)
    | some (.scalar style text), _ => skip; return .scalar style (scalarTag? tag?) text
    | some (.openFlow .sequence), _ => skip; return .sequence (← flowItems true fuel)
    | some (.openFlow .mapping), _ => skip; return .mapping (← flowEntries true fuel)
    | some (.openBlock .sequence), .item | some (.openBlock .sequence), .field =>
      skip; return .sequence (← blockItems fuel)
    | some (.openBlock .mapping), .item | some (.openBlock .mapping), .field =>
      skip; return .mapping (← blockEntries fuel)
    | none, _ => cut
    | _, _ => if hasProperties then return .absent else cut

/-- The entries of a block sequence up to its end. -/
def blockItems : (fuel : Nat) → Reader (List Node)
  | 0 => return [← cut]
  | fuel + 1 => do
    if ← skip? .entry then
      let item ← orAbsent [.entry, .closeBlock] (node .item fuel)
      return item :: (← blockItems fuel)
    else if ← skip? .closeBlock then return []
    else return [← cut]

/-- The entries of a block sequence that stands in the column of its key: it ends
where no other entry follows. -/
def alignedItems : (fuel : Nat) → Reader (List Node)
  | 0 => return [← cut]
  | fuel + 1 => do
    if ← skip? .entry then
      let item ← orAbsent [.entry, .key, .value, .closeBlock] (node .item fuel)
      return item :: (← alignedItems fuel)
    else if (← peek).isSome then return []
    else return [← cut]

def blockEntries : (fuel : Nat) → Reader (List (Node × Node))
  | 0 => return [(← cut, .cut)]
  | fuel + 1 => do
    if ← skip? .key then
      let key ← orAbsent [.key, .value, .closeBlock] (node .field fuel)
      let value ←
        if ← skip? .value then orAbsent [.key, .value, .closeBlock] (node .field fuel)
        else absent
      return (key, value) :: (← blockEntries fuel)
    else if ← skip? .closeBlock then return []
    else return [(← cut, .cut)]

/-- Before each entry but the first a comma is due; one may stand before the bracket.
An entry with a key is a mapping of its own. -/
def flowItems (first : Bool) : (fuel : Nat) → Reader (List Node)
  | 0 => return [← cut]
  | fuel + 1 => do
    if ← skip? (.closeFlow .sequence) then return []
    else if ← comma first then
      if ← skip? (.closeFlow .sequence) then return []
      else if ← skip? .key then
        let key ← flowKey fuel
        let value ← flowValue .sequence fuel
        let unended ← if (← peek).isSome then pure [] else pure [(.cut, .cut)]
        return .mapping ((key, value) :: unended) :: (← flowItems false fuel)
      else
        let item ← node .flow fuel
        return item :: (← flowItems false fuel)
    else return [← cut]

def flowEntries (first : Bool) : (fuel : Nat) → Reader (List (Node × Node))
  | 0 => return [(← cut, .cut)]
  | fuel + 1 => do
    if ← skip? (.closeFlow .mapping) then return []
    else if ← comma first then
      if ← skip? (.closeFlow .mapping) then return []
      else if ← skip? .key then
        let key ← orAbsent [.value, .comma, .closeFlow .mapping] (node .flow fuel)
        let value ← flowValue .mapping fuel
        return (key, value) :: (← flowEntries false fuel)
      else
        let key ← node .flow fuel
        return (key, ← absent) :: (← flowEntries false fuel)
    else return [(← cut, .cut)]

/-- The key of an entry of a flow sequence. The lexeme that shows that it is absent is
taken with it. -/
def flowKey : (fuel : Nat) → Reader Node
  | 0 => cut
  | fuel + 1 => do
    match ← peek with
    | some .value | some .comma | some (.closeFlow .sequence) => skip; return .absent
    | some _ => node .flow fuel
    | none => cut

/-- The value of a key inside brackets; without a colon it is absent. -/
def flowValue (c : Collection) : (fuel : Nat) → Reader Node
  | 0 => cut
  | fuel + 1 => do
    if ← skip? .value then orAbsent [.comma, .closeFlow c] (node .flow fuel) else absent

end

/-! ## Documents -/

/-- The handles that are declared in front of a document, and what is left behind the
mark of its start. The version may be told once and has to be 1.1 or 1.2; a handle may
be declared once, over the standard one of its name. -/
def prologue? (hasVersion : Bool) (handles : List (String × String)) :
    List Lexeme → Option (List (String × String) × List Lexeme)
  | .version major minor :: ls =>
    if hasVersion || major ≠ 1 || (minor ≠ 1 && minor ≠ 2) then none
    else prologue? true handles ls
  | .tagHandle handle stem :: ls =>
    if handles.any (·.1 == handle) then none
    else prologue? hasVersion (handles ++ [(handle, stem)]) ls
  | .documentStart :: ls => some (handles ++ Tag.standardHandles, ls)
  | _ => none

/-- The content of a document behind the mark of its start. -/
def marked (fuel : Nat) : Reader Node := do
  match ← peek with
  | some (.version _ _) | some (.tagHandle _ _) | some .documentStart | some .documentEnd
  | some .textEnd => return .absent
  | some _ => node .item fuel
  | none => cut

/-- The content of the first document. A text without any content is a document with
an absent node. -/
def root (fuel : Nat) : Reader Node := do
  match ← peek with
  | some .textEnd => return .absent
  | some (.version _ _) | some (.tagHandle _ _) | some .documentStart =>
    match prologue? false [] (← get).lexemes with
    | some (handles, lexemes) =>
      modify ({ · with handles, lexemes })
      marked fuel
    | none => cut
  | some _ => node .item fuel
  | none => cut

end Reader

/-- The anchored nodes by the numbers of their anchors, latest first. -/
def Remainder.anchors (r : Remainder) : List (Nat × Node) :=
  r.begun.zipIdx.filterMap fun (anchor, later) =>
    (r.ended.lookup (r.begun.length - 1 - later)).map (anchor, ·)

namespace Document

/-- No call reads on without taking a lexeme more than three times in a row, so a
fuel of four for each lexeme is never used up. -/
def ofLexemes (lexemes : List Lexeme) : Document :=
  let start : Remainder := ⟨lexemes, Tag.standardHandles, [], [], []⟩
  let (root, rest) := (Reader.root (4 * lexemes.length + 4)).run start
  ⟨root, rest.anchors, rest.lexemes.dropWhile (· == .documentEnd) == [.textEnd]⟩

def ofText (text : String) : Document :=
  ofLexemes (Lexeme.ofText text)

end Document
end BackendRouting.Yaml
