import BackendRouting.Rule.Basic

/-!
# Rule sets

A rule set holds rules in the order in which they are checked: by descending rank,
and as supplied where the ranks are equal. Ids may repeat. The first rule that
applies to a message is selected.
-/
namespace BackendRouting

structure RuleSet where
  rules : List Rule

namespace RuleSet

def ofList (rules : List Rule) : RuleSet :=
  ⟨rules.mergeSort fun r s => s.rank ≤ r.rank⟩

theorem ofList_nil : ofList [] = ⟨[]⟩ :=
  congrArg RuleSet.mk List.mergeSort_nil

def select? (rs : RuleSet) (m : Message) : Option Rule :=
  rs.rules.find? (·.appliesTo m)

/-- The first rule of that id. -/
def get? (rs : RuleSet) (id : RuleId) : Option Rule :=
  rs.rules.find? (·.id == id)

def size (rs : RuleSet) : Nat :=
  rs.rules.length

def isEmpty (rs : RuleSet) : Bool :=
  rs.rules.isEmpty

/-- The ids with their priorities, in the order of evaluation. -/
def priorities (rs : RuleSet) : List (RuleId × Int32) :=
  rs.rules.map fun r => (r.id, r.priority)

def describe (rs : RuleSet) : String :=
  "RoutingRuleSet(" ++ toString rs.size ++ " rules, " ++
    toString (rs.rules.countP (·.deleted)) ++ " deleted)"

end RuleSet
end BackendRouting
