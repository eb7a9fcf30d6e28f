import BackendRouting.Pattern.Basic

/-!
# Routing rules

A rule sends the messages its pattern holds for to a link. Rules are checked by
descending rank. The rank is the priority, except for two priorities that are set
apart: -2000 goes before and 2000 goes after every other one.

* `Priority.rank_lt_rank_first`, `Priority.rank_last_lt_rank`: the two are set apart.
* `Priority.rank_injective`: only equal priorities tie.
-/
namespace BackendRouting

/-- Who configured a rule. -/
inductive Source where
  | implementation
  | environment
  | database
  deriving DecidableEq, Repr

namespace Priority

/-- Checked before every other priority. -/
def first : Int32 := -2000

/-- Checked after every other priority. -/
def last : Int32 := 2000

/-- The place in the order of evaluation; a rule of higher rank goes first. The two
ends are the ends of the 64-bit integers, beyond all 32-bit ones. -/
def rank (p : Int32) : Int :=
  if p = first then Int64.maxValue.toInt else if p = last then Int64.minValue.toInt else p.toInt

theorem rank_of_ne {p : Int32} (hf : p ≠ first) (hl : p ≠ last) : rank p = p.toInt := by
  simp [rank, hf, hl]

theorem rank_lt_rank_first {p : Int32} (h : p ≠ first) : rank p < rank first := by
  have := Int32.toInt_lt p
  by_cases hl : p = last
  · subst hl; decide
  · rw [rank_of_ne h hl, show rank first = 9223372036854775807 from rfl]; omega

theorem rank_last_lt_rank {p : Int32} (h : p ≠ last) : rank last < rank p := by
  have := Int32.le_toInt p
  by_cases hf : p = first
  · subst hf; decide
  · rw [rank_of_ne hf h, show rank last = -9223372036854775808 from rfl]; omega

theorem rank_injective {p q : Int32} (h : rank p = rank q) : p = q := by
  by_cases hpf : p = first
  · exact hpf.trans (Classical.byContradiction fun hq =>
      absurd (hpf ▸ h) (Int.ne_of_gt (rank_lt_rank_first (Ne.symm hq))))
  by_cases hpl : p = last
  · exact hpl.trans (Classical.byContradiction fun hq =>
      absurd (hpl ▸ h) (Int.ne_of_lt (rank_last_lt_rank (Ne.symm hq))))
  by_cases hqf : q = first
  · exact absurd (hqf ▸ h) (Int.ne_of_lt (rank_lt_rank_first hpf))
  by_cases hql : q = last
  · exact absurd (hql ▸ h) (Int.ne_of_gt (rank_last_lt_rank hpl))
  rw [rank_of_ne hpf hpl, rank_of_ne hqf hql] at h
  exact Int32.toInt_inj.1 h

end Priority

structure Rule where
  id : RuleId
  link : String
  pattern : Pattern
  priority : Int32
  description : String
  source : Source
  deleted : Bool

namespace Rule

/-- A rule of its own, with nothing else set. -/
def new (id : RuleId) (link : String) (pattern : Pattern) : Rule :=
  { id, link, pattern, priority := 0, description := "", source := .implementation,
    deleted := false }

def rank (r : Rule) : Int :=
  Priority.rank r.priority

/-- A deleted rule applies to no message. -/
def appliesTo (r : Rule) (m : Message) : Bool :=
  !r.deleted && r.pattern.holds m

/-- Rules are told apart by their ids alone. -/
def sameId (r s : Rule) : Bool :=
  r.id == s.id

def describe (r : Rule) : String :=
  "RoutingRule(id=" ++ r.id.text ++ ", link=" ++ r.link ++ ", priority=" ++
    toString r.priority.toInt ++ ", pattern=" ++ r.pattern.describe ++ ")"

end Rule
end BackendRouting
