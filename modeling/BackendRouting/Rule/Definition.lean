import BackendRouting.Rule.Set

/-!
# Defining rules one setting at a time

A definition is a link with settings in the order in which they are made. Of two
settings of one kind the later one counts; a text and a condition are both the
clause of the rule, so either replaces the other.
-/
namespace BackendRouting

inductive Clause where
  | text (pattern : String)
  | condition (e : Condition)
  deriving DecidableEq, Repr

inductive Setting where
  | clause (c : Clause)
  | id (name : String)
  | priority (p : Int32)
  | description (text : String)
  | source (s : Source)
  deriving DecidableEq, Repr

structure Definition where
  link : String
  settings : List Setting
  deriving DecidableEq, Repr

/-- What the settings made so far amount to. -/
structure Draft where
  clause? : Option Clause
  id? : Option String
  priority : Int32
  description : String
  source : Source
  deriving DecidableEq, Repr

def Clause.pattern : Clause → Except RuleError Pattern
  | text pattern => Pattern.ofValidText pattern
  | condition e => Pattern.ofCondition e

namespace Draft

def initial : Draft := ⟨none, none, 0, "", .implementation⟩

def make (d : Draft) : Setting → Draft
  | .clause c => { d with clause? := some c }
  | .id name => { d with id? := some name }
  | .priority p => { d with priority := p }
  | .description text => { d with description := text }
  | .source s => { d with source := s }

end Draft

namespace Definition

def draft (d : Definition) : Draft :=
  d.settings.foldl Draft.make .initial

/-- The defined rule, under the `fresh` id if none was set. What is wrong with the
clause is told before a blank link. -/
def rule (fresh : RuleId) (d : Definition) : Except RuleError Rule := do
  let draft := d.draft
  let some clause := draft.clause? | throw (.missingPattern d.link)
  let pattern ← clause.pattern
  let id := (draft.id?.map RuleId.given).getD fresh
  if Text.isBlank d.link then throw (.emptyLink id)
  return { id, link := d.link, pattern, priority := draft.priority,
           description := draft.description, source := draft.source, deleted := false }

end Definition

/-- The rule set of the definitions, or the error of the first one that is not
acceptable. The generated ids are numbered by the place of the definition. -/
def RuleSet.define (definitions : List Definition) : Except RuleError RuleSet := do
  let rules ← definitions.zipIdx.mapM fun (d, i) => d.rule (.generated i)
  return .ofList rules

end BackendRouting
