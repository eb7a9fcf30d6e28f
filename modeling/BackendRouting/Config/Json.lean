import BackendRouting.Config.Document

/-!
# Configurations as JSON text

The tree of a configuration on one line without spaces. Quoted scalars are written as
JSON strings, plain ones as they are.
-/
namespace BackendRouting.Config.Json

open Yaml (Node)

def hexDigit (n : Nat) : Char :=
  "0123456789abcdef".toList.getD n '0'

/-- The escapes that JSON has a letter for. -/
def shortEscapes : List (Char × Char) :=
  [('"', '"'), ('\\', '\\'), ('\x08', 'b'), ('\x0c', 'f'), ('\n', 'n'), ('\r', 'r'), ('\t', 't')]

/-- Quotes, backslashes and control characters are escaped, all else is literal. -/
def escape (c : Char) : List Char :=
  match shortEscapes.lookup c with
  | some letter => ['\\', letter]
  | none =>
    if c.toNat < 0x20 then ['\\', 'u', '0', '0', hexDigit (c.toNat / 16), hexDigit (c.toNat % 16)]
    else [c]

def quote (text : String) : String :=
  "\"" ++ String.ofList (text.toList.flatMap escape) ++ "\""

mutual

def ofNode : Node → String
  | .scalar .plain _ text => text
  | .scalar _ _ text => quote text
  | .sequence items => "[" ++ ",".intercalate (ofItems items) ++ "]"
  | .mapping entries => "\x7b" ++ ",".intercalate (ofEntries entries) ++ "\x7d"
  | .reference _ | .cut => "null"

def ofItems : List Node → List String
  | [] => []
  | item :: items => ofNode item :: ofItems items

def ofEntries : List (Node × Node) → List String
  | [] => []
  | entry :: entries => ofEntry entry :: ofEntries entries

def ofEntry : Node × Node → String
  | (key, value) => ofNode key ++ ":" ++ ofNode value

end

end Json

def toJson (c : Config) : String :=
  Json.ofNode c.encode

def RuleEntry.toJson (r : RuleEntry) : String :=
  Json.ofNode r.encode

end BackendRouting.Config
