import BackendRouting.Event
import BackendRouting.Rule.Set

/-!
# Selection with a report

The report names the rules that were evaluated until one applied. Deleted rules
are not evaluated.
-/
namespace BackendRouting

/-- `passed` are the evaluated rules that did not apply, in the order of evaluation. -/
structure Report where
  passed : List RuleId
  selected? : Option (RuleId × String)
  deriving DecidableEq, Repr

namespace Report

/-- All evaluated rules; the selected one is the last. -/
def evaluated (r : Report) : List RuleId :=
  r.passed ++ (r.selected?.map Prod.fst).toList

def events (r : Report) : List Event :=
  r.passed.map (.evaluated · false) ++ (r.selected?.map fun (id, _) => .evaluated id true).toList

def describe (r : Report) : String :=
  let selected := match r.selected? with
    | some (id, link) => id.text ++ " -> " ++ link
    | none => "none"
  "selected: " ++ selected ++ ", evaluated: [" ++
    ", ".intercalate (r.evaluated.map RuleId.text) ++ "]"

/-- Go through the rules as they stand. -/
def ofRules (m : Message) : List Rule → Report
  | [] => ⟨[], none⟩
  | rule :: rules =>
    if rule.deleted then ofRules m rules
    else if rule.pattern.holds m then ⟨[], some (rule.id, rule.link)⟩
    else
      let rest := ofRules m rules
      { rest with passed := rule.id :: rest.passed }

end Report

def RuleSet.report (rs : RuleSet) (m : Message) : Report :=
  .ofRules m rs.rules

end BackendRouting
