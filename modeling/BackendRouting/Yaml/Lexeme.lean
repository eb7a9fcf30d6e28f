import BackendRouting.Yaml.Node
import BackendRouting.Yaml.Tag

/-!
# Lexemes of a document

Indentation is made explicit: a block collection is opened and closed by lexemes of
its own, like one in brackets.
-/
namespace BackendRouting.Yaml

inductive Collection where
  | sequence
  | mapping
  deriving DecidableEq, Repr

/-- `version` and `tagHandle` are the directives in front of a document. -/
inductive Lexeme where
  | version (major minor : Nat)
  | tagHandle (handle stem : String)
  | documentStart
  | documentEnd
  | textEnd
  | openBlock (c : Collection)
  | closeBlock
  | openFlow (c : Collection)
  | closeFlow (c : Collection)
  | comma
  | entry
  | key
  | value
  | anchor (name : String)
  | reference (name : String)
  | tag (t : Tag)
  | scalar (style : Style) (text : String)
  deriving DecidableEq, Repr

end BackendRouting.Yaml
