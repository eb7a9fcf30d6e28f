import BackendRouting.Event
import BackendRouting.Rule.Set

/-!
# Business domains

A business domain has a default backend, rules, and a switch. Its rules are kept twice:
in the order in which they were added, and as the rule set by which it routes. A rule
added again under its id takes the place of the former one. Whoever changes the rules
sorts them anew (`resort`).

* `find?_place`, `ids_place`: placing a rule gives its id that rule, where it was or at the end.
* `foldl_add`: rules whose ids are told apart are added behind each other.
* `find?_eraseP`: with ids told apart, removing a rule leaves all the others.
-/
namespace BackendRouting

/-- `ruleSet` is kept beside `added`. Whoever changes the one owes the other, by `sorted`. -/
@[ext]
structure Domain where
  enabled : Bool
  defaultBackend : String
  added : List Rule
  ruleSet : RuleSet
  sorted : ruleSet = .ofList added

/-- How a message was routed. -/
inductive Verdict where
  | disabled (backend : String)
  | matched (rule : Rule)
  | unmatched (backend : String)

namespace Verdict

def link : Verdict → String
  | disabled backend | unmatched backend => backend
  | matched rule => rule.link

def event : Verdict → Event
  | disabled backend => .disabled backend
  | matched rule => .lookedUp rule.id rule.link
  | unmatched backend => .unmatched backend

end Verdict

namespace Domain

/-- A domain starts enabled and without rules. -/
def new (backend : String) : Domain :=
  ⟨true, backend, [], ⟨[]⟩, RuleSet.ofList_nil.symm⟩

/-- Keep these rules from now on, and sort them for routing. -/
def resort (d : Domain) (rules : List Rule) : Domain :=
  { d with added := rules, ruleSet := .ofList rules, sorted := rfl }

@[simp] theorem added_resort (d : Domain) (rules : List Rule) : (d.resort rules).added = rules :=
  rfl

@[simp] theorem resort_resort (d : Domain) (rules rules' : List Rule) :
    (d.resort rules).resort rules' = d.resort rules' :=
  rfl

@[simp] theorem resort_added (d : Domain) : d.resort d.added = d :=
  Domain.ext rfl rfl rfl d.sorted.symm

/-- The rules in the order of evaluation. -/
def rules (d : Domain) : List Rule :=
  d.ruleSet.rules

theorem rules_eq (d : Domain) : d.rules = (RuleSet.ofList d.added).rules :=
  congrArg RuleSet.rules d.sorted

/-- The default backend serves when routing is disabled and when no rule applies. -/
def route (d : Domain) (m : Message) : Verdict :=
  if d.enabled then (d.ruleSet.select? m).elim (.unmatched d.defaultBackend) .matched
  else .disabled d.defaultBackend

/-- Over the first rule of the same id, or else at the end. -/
def place (rule : Rule) : List Rule → List Rule
  | [] => [rule]
  | r :: rules => if r.id = rule.id then rule :: rules else r :: place rule rules

theorem find?_place (rule : Rule) (rules : List Rule) (id : RuleId) :
    (place rule rules).find? (·.id == id) =
      if rule.id = id then some rule else rules.find? (·.id == id) := by
  induction rules with
  | nil => by_cases h : rule.id = id <;> simp [place, h]
  | cons r rules ih =>
    rw [place]
    by_cases hr : r.id = rule.id
    · by_cases h : rule.id = id <;> simp [hr, h]
    · by_cases h : rule.id = id
      · simp [ih, h, h ▸ hr]
      · simp [hr, ih, h, List.find?_cons]

theorem ids_place (rule : Rule) (rules : List Rule) :
    (place rule rules).map Rule.id =
      if rule.id ∈ rules.map Rule.id then rules.map Rule.id
      else rules.map Rule.id ++ [rule.id] := by
  induction rules with
  | nil => simp [place]
  | cons r rules ih =>
    rw [place]
    by_cases hr : r.id = rule.id
    · simp [hr]
    · rw [if_neg hr, List.map_cons, ih]
      by_cases h : rule.id ∈ rules.map Rule.id
      · simp [h]
      · simp [h, Ne.symm hr]

theorem place_of_not_mem {rule : Rule} {rules : List Rule} (h : rule.id ∉ rules.map Rule.id) :
    place rule rules = rules ++ [rule] := by
  induction rules with
  | nil => rfl
  | cons r rules ih =>
    simp only [List.map_cons, List.mem_cons, not_or] at h
    rw [place, if_neg (Ne.symm h.1), ih h.2]
    rfl

theorem eraseP_eq_filter {rules : List Rule} (h : (rules.map Rule.id).Nodup) (id : RuleId) :
    rules.eraseP (·.id == id) = rules.filter (·.id != id) := by
  induction rules with
  | nil => rfl
  | cons r rules ih =>
    obtain ⟨hr, hrules⟩ := List.nodup_cons.1 h
    by_cases hid : r.id = id
    · have hrest : rules.filter (·.id != id) = rules := List.filter_eq_self.2 fun s hs => by
        have : s.id ≠ id := fun heq => hr (List.mem_map.2 ⟨s, hs, heq.trans hid.symm⟩)
        simpa using this
      simp [hid, hrest]
    · simp [hid, ih hrules]

theorem find?_eraseP {rules : List Rule} (h : (rules.map Rule.id).Nodup) (id id' : RuleId) :
    (rules.eraseP (·.id == id)).find? (·.id == id') =
      if id = id' then none else rules.find? (·.id == id') := by
  rw [eraseP_eq_filter h, List.find?_filter]
  by_cases hid : id = id'
  · subst hid
    simp
  · rw [if_neg hid]
    congr 1
    funext r
    by_cases hr : r.id = id'
    · simp [hr, Ne.symm hid]
    · simp [hr]

def add (d : Domain) (rule : Rule) : Domain :=
  d.resort (place rule d.added)

/-- Rules of new and different ids are added behind the others, in their order. -/
theorem foldl_add {d : Domain} {rules : List Rule}
    (h : ((d.added ++ rules).map Rule.id).Nodup) :
    rules.foldl add d = d.resort (d.added ++ rules) := by
  induction rules generalizing d with
  | nil => simp
  | cons rule rules ih =>
    have hnew : rule.id ∉ d.added.map Rule.id := by
      rw [List.map_append, List.nodup_append] at h
      exact fun hin => h.2.2 _ hin _ List.mem_cons_self rfl
    have hadd : d.add rule = d.resort (d.added ++ [rule]) := by
      rw [add, place_of_not_mem hnew]
    rw [List.foldl_cons, hadd, ih (by simpa using h)]
    simp

def get? (d : Domain) (id : RuleId) : Option Rule :=
  d.added.find? (·.id == id)

/-- Take a rule out, and hand it over. Without a rule of that id there is nothing to sort. -/
def remove (d : Domain) (id : RuleId) : Option Rule × Domain :=
  match d.get? id with
  | some rule => (some rule, d.resort (d.added.eraseP (·.id == id)))
  | none => (none, d)

@[simp] theorem fst_remove (d : Domain) (id : RuleId) : (d.remove id).1 = d.get? id := by
  unfold remove
  cases d.get? id <;> rfl

theorem remove_of_get?_eq_none {d : Domain} {id : RuleId} (h : d.get? id = none) :
    (d.remove id).2 = d := by
  rw [remove, h]

/-- Sorting once more where nothing was found would not have changed anything. -/
theorem snd_remove (d : Domain) (id : RuleId) :
    (d.remove id).2 = d.resort (d.added.eraseP (·.id == id)) := by
  unfold remove
  cases h : d.get? id with
  | some rule => rfl
  | none => rw [List.eraseP_of_forall_not (List.find?_eq_none.1 h), resort_added]

end Domain
end BackendRouting
