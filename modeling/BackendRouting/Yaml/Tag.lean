import BackendRouting.Yaml.Cursor
import BackendRouting.Yaml.Integer

/-!
# Tags

A tag is written `!suffix`, `!handle!suffix`, or in full as `!<suffix>`. Its suffix
has the characters of a URI; others are escaped octet by octet, and an octet stands
here as the character of its number.
-/
namespace BackendRouting.Yaml

/-- A tag in full has no handle. -/
structure Tag where
  handle : String
  suffix : String
  deriving DecidableEq, Repr

namespace Tag

/-- Commas and square brackets are URI characters too, but end a tag inside brackets
unless it is written in full. -/
def isUriChar (full : Bool) (c : Char) : Bool :=
  isNameChar c || ";/?:@&=+$.!~*'()".toList.contains c || (full && ",[]".toList.contains c)

/-- A percent sign with two hexadecimal digits. -/
def octet? : List Char → Option Nat
  | '%' :: a :: b :: _ => natural? 16 [a, b]
  | _ => none

/-- The number of octets of a character, by the first one. -/
def octetCount? (first : Nat) : Option Nat :=
  if first < 0x80 then some 1
  else if first < 0xC0 then none
  else if first < 0xE0 then some 2
  else if first < 0xF0 then some 3
  else if first < 0xF8 then some 4
  else none

/-- The octets of one escaped character. -/
def escaped? (cs : List Char) : Option (List Nat) := do
  let first ← octet? cs
  let count ← octetCount? first
  let further ← (List.range' 3 (count - 1) 3).mapM fun i =>
    (octet? (cs.drop i)).filter fun octet => 0x80 ≤ octet && octet < 0xC0
  return first :: further

/-- The URI characters from here on, with the escaped ones in place, and what is left. -/
def uri (full : Bool) (cs : List Char) : Option (List Char × List Char) :=
  match cs with
  | [] => some ([], [])
  | c :: rest =>
    if c = '%' then
      match escaped? (c :: rest) with
      | none => none
      | some octets =>
        (uri full (rest.drop (3 * octets.length - 1))).map fun (text, left) =>
          (octets.map Char.ofNat ++ text, left)
    else if isUriChar full c then (uri full rest).map fun (text, left) => (c :: text, left)
    else some ([], c :: rest)
termination_by cs.length
decreasing_by
  · simp only [List.length_drop, List.length_cons]; omega
  · simp

/-- A handle is an exclamation mark with a name and a second exclamation mark, or with
neither. What is no handle is read as far as it may be one. -/
def splitHandle : List Char → List Char × List Char
  | '!' :: cs =>
    let name := cs.takeWhile isNameChar
    match cs.dropWhile isNameChar with
    | '!' :: left => ('!' :: name ++ ['!'], left)
    | left => ('!' :: name, left)
  | cs => ([], cs)

/-- A null octet ends the text of a tag. -/
def text (octets : List Char) : String :=
  String.ofList (octets.takeWhile (· ≠ '\x00'))

/-- The tag at the start of the text, and what is left. The lone exclamation mark is a
tag in full. -/
def read? (cs : List Char) : Option (Tag × List Char) :=
  match cs with
  | '!' :: '<' :: cs => do
    let (octets, left) ← uri true cs
    match octets, left with
    | _ :: _, '>' :: left => return (⟨"", text octets⟩, left)
    | _, _ => none
  | cs => do
    let (mark, left) := splitHandle cs
    let (octets, left) ← uri false left
    if 1 < mark.length ∧ mark.getLast? = some '!' then
      if octets = [] then none else return (⟨String.ofList mark, text octets⟩, left)
    else
      let suffix := text (mark.tail ++ octets)
      return (if suffix = "" then ⟨"", "!"⟩ else ⟨"!", suffix⟩, left)

/-- The handles that every document has. -/
def standardHandles : List (String × String) :=
  [("!", "!"), ("!!", "tag:yaml.org,2002:")]

/-- The whole text of a tag; a handle has to be declared. -/
def resolve? (handles : List (String × String)) (t : Tag) : Option String :=
  if t.handle = "" then some t.suffix else (handles.lookup t.handle).map (· ++ t.suffix)

end Tag
end BackendRouting.Yaml
