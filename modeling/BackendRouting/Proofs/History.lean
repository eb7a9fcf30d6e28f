import BackendRouting.Proofs.Selection
import BackendRouting.Proofs.Step
import Mathlib.Data.List.DropRight

/-!
# What a registry owes to its history

Of the operations done on a registry only those count for a domain that are about it and
succeed (`Registry.calls`). The state of the domain is told by looking back at these: at the
last change of each rule, at when the rule came in (`slot`), at the last backend and the last
setting of the switch (`Domain.Reflects`).

* `Domain.Reflects.add`, `.remove`, ...: one operation more in the domain and in the history.
* `reflects_run`: the invariant over a whole run.
* `determined_by_history`: everything that can be asked of a registered domain.
-/
namespace BackendRouting

namespace Operation

def adds (id : RuleId) : Operation → Bool
  | add _ rule => rule.id == id
  | _ => false

def removes (id : RuleId) : Operation → Bool
  | remove _ id' => id' == id
  | _ => false

/-- The rule that is added. -/
def rule? : Operation → Option Rule
  | add _ rule => some rule
  | _ => none

def enabled? : Operation → Option Bool
  | setEnabled _ enabled => some enabled
  | _ => none

end Operation

/-! ## Looking back -/

namespace History

variable {id : RuleId} {h : List Operation} {op : Operation}

/-- The last addition or removal of the id. -/
def lastChange? (id : RuleId) (h : List Operation) : Option Operation :=
  (h.filter fun op => op.adds id || op.removes id).getLast?

/-- What was done after the last removal of the id. -/
def sinceRemoval (id : RuleId) (h : List Operation) : List Operation :=
  h.rtakeWhile fun op => !op.removes id

/-- When the id came in: the place in the history of the earliest addition after the last
removal. -/
def slot (id : RuleId) (h : List Operation) : Nat :=
  h.length - (sinceRemoval id h).length + (sinceRemoval id h).findIdx (Operation.adds id)

/-- The id has been added since its last removal. -/
def Present (id : RuleId) (h : List Operation) : Prop :=
  ∃ op ∈ sinceRemoval id h, op.adds id = true

/-- The backend that was asked for last. -/
def backend? (h : List Operation) : Option String :=
  (h.filterMap Operation.backend?).getLast?

/-- The last setting of the switch; it is on at first. -/
def enabled (h : List Operation) : Bool :=
  (h.filterMap Operation.enabled?).getLast?.getD true

theorem lastChange?_concat : lastChange? id (h ++ [op]) =
    if op.adds id || op.removes id then some op else lastChange? id h := by
  unfold lastChange?
  rw [List.filter_append]
  by_cases hop : (op.adds id || op.removes id) = true
  · simp [hop]
  · simp [hop]

theorem sinceRemoval_concat (hop : op.removes id = false) :
    sinceRemoval id (h ++ [op]) = sinceRemoval id h ++ [op] :=
  List.rtakeWhile_concat_pos _ _ _ (by simp [hop])

theorem length_sinceRemoval_le (id : RuleId) (h : List Operation) :
    (sinceRemoval id h).length ≤ h.length :=
  (List.rtakeWhile_suffix _ _).length_le

/-- An id is present exactly if its last change was an addition. -/
theorem present_iff : Present id h ↔ ∃ name rule, lastChange? id h = some (.add name rule) := by
  induction h using List.reverseRecOn with
  | nil => simp [Present, sinceRemoval, lastChange?]
  | append_singleton h op ih =>
    rw [lastChange?_concat]
    cases hrem : op.removes id with
    | true =>
      have hsince : sinceRemoval id (h ++ [op]) = [] :=
        List.rtakeWhile_concat_neg _ _ _ (by simp [hrem])
      cases op <;> simp_all [Operation.removes, Present]
    | false =>
      rw [Present, sinceRemoval_concat hrem]
      cases hadd : op.adds id with
      | true => cases op <;> simp_all [Operation.adds]
      | false => simpa [hadd, Present] using ih

theorem slot_concat (hp : Present id h) (hop : op.removes id = false) :
    slot id (h ++ [op]) = slot id h := by
  have hle := length_sinceRemoval_le id h
  have hlt := List.findIdx_lt_length.2 hp
  rw [slot, sinceRemoval_concat hop, List.findIdx_append, if_pos hlt, slot, List.length_append,
    List.length_append]
  simp only [List.length_singleton]
  omega

theorem slot_lt_length (hp : Present id h) : slot id h < h.length := by
  have hle := length_sinceRemoval_le id h
  have hlt := List.findIdx_lt_length.2 hp
  unfold slot
  omega

/-- An id that comes in takes the last slot. -/
theorem slot_concat_adds (hp : ¬ Present id h) (hop : op.adds id = true) :
    slot id (h ++ [op]) = h.length := by
  have hrem : op.removes id = false := by cases op <;> simp_all [Operation.adds, Operation.removes]
  have hle := length_sinceRemoval_le id h
  have hnot : ¬ (sinceRemoval id h).findIdx (Operation.adds id) < (sinceRemoval id h).length := by
    rwa [List.findIdx_lt_length]
  have hone : [op].findIdx (Operation.adds id) = 0 := by simp [List.findIdx_cons, hop]
  rw [slot, sinceRemoval_concat hrem, List.findIdx_append, if_neg hnot, hone, List.length_append,
    List.length_append]
  simp only [List.length_singleton]
  omega

theorem backend?_concat : backend? (h ++ [op]) = op.backend?.or (backend? h) := by
  unfold backend?
  cases hop : op.backend? <;> simp [hop]

theorem enabled_concat : enabled (h ++ [op]) = op.enabled?.getD (enabled h) := by
  unfold enabled
  cases hop : op.enabled? <;> simp [hop]

end History

open History

/-! ## One operation more -/

/-- What is kept of a domain is what its history says. The rule set needs no word of its own, for
it is always that of the rules as they were added. -/
structure Domain.Reflects (d : Domain) (name : String) (h : List Operation) : Prop where
  about : ∀ op ∈ h, op.domain = name
  registered : ∃ backend, .register name backend ∈ h
  rule : ∀ id, d.added.find? (·.id == id) = (lastChange? id h).bind Operation.rule?
  slots : (d.added.map Rule.id).Pairwise fun x y => slot x h < slot y h
  backend : backend? h = some d.defaultBackend
  enabled : History.enabled h = d.enabled

namespace Domain.Reflects

variable {d : Domain} {name : String} {h : List Operation} {op : Operation} {id : RuleId}

theorem new (name backend : String) :
    (Domain.new backend).Reflects name [.register name backend] where
  about := by simp [Operation.domain]
  registered := ⟨backend, by simp⟩
  rule _ := by simp [Domain.new, lastChange?, Operation.adds, Operation.removes]
  slots := .nil
  backend := rfl
  enabled := rfl

theorem nodup (hd : d.Reflects name h) : (d.added.map Rule.id).Nodup :=
  hd.slots.imp fun hlt heq => by rw [heq] at hlt; exact Nat.lt_irrefl _ hlt

theorem present_iff (hd : d.Reflects name h) : Present id h ↔ id ∈ d.added.map Rule.id := by
  have hfind := hd.rule id
  rw [History.present_iff]
  constructor
  · intro hp
    obtain ⟨name', rule, hlast⟩ := hp
    rw [hlast] at hfind
    have hmem := List.mem_of_find?_eq_some hfind
    exact List.mem_map.2 ⟨rule, hmem, by simpa using List.find?_some hfind⟩
  · intro hmem
    obtain ⟨r, hr, hid⟩ := List.mem_map.1 hmem
    have hsome : (d.added.find? (·.id == id)).isSome = true :=
      List.find?_isSome.2 ⟨r, hr, by simpa using hid⟩
    rw [hfind] at hsome
    cases hlast : lastChange? id h with
    | none => simp [hlast] at hsome
    | some op =>
      rw [hlast] at hsome
      cases op with
      | add name' rule => exact ⟨name', rule, rfl⟩
      | _ => simp [Operation.rule?] at hsome

/-- An operation that removes none of the ids leaves them in their slots. -/
theorem slots_concat (hd : d.Reflects name h) {ids : List RuleId}
    (hids : ids.Sublist (d.added.map Rule.id)) (hop : ∀ id ∈ ids, op.removes id = false) :
    ids.Pairwise fun x y => slot x (h ++ [op]) < slot y (h ++ [op]) := by
  refine (hd.slots.sublist hids).imp_of_mem fun {x y} hx hy hlt => ?_
  rw [slot_concat (hd.present_iff.2 (hids.subset hx)) (hop x hx),
    slot_concat (hd.present_iff.2 (hids.subset hy)) (hop y hy)]
  exact hlt

theorem about_concat (hd : d.Reflects name h) (hop : op.domain = name) :
    ∀ op' ∈ h ++ [op], op'.domain = name := by
  intro op' hmem
  rcases List.mem_append.1 hmem with hmem | hmem
  · exact hd.about op' hmem
  · rw [List.mem_singleton.1 hmem]; exact hop

theorem registered_concat (hd : d.Reflects name h) :
    ∃ backend, .register name backend ∈ h ++ [op] := by
  obtain ⟨backend, hmem⟩ := hd.registered
  exact ⟨backend, List.mem_append_left _ hmem⟩

/-- An operation that does not concern rules. -/
theorem settings (hd : d.Reflects name h) (hop : op.domain = name)
    (hrules : ∀ id, op.adds id = false ∧ op.removes id = false) :
    Domain.Reflects { d with
      defaultBackend := op.backend?.getD d.defaultBackend,
      enabled := op.enabled?.getD d.enabled } name (h ++ [op]) where
  about := hd.about_concat hop
  registered := hd.registered_concat
  rule id := by
    rw [lastChange?_concat, (hrules id).1, (hrules id).2]
    exact hd.rule id
  slots := hd.slots_concat (List.Sublist.refl _) fun id _ => (hrules id).2
  backend := by rw [backend?_concat, hd.backend]; cases op.backend? <;> rfl
  enabled := by rw [enabled_concat, hd.enabled]

theorem add (hd : d.Reflects name h) (rule : Rule) :
    (d.add rule).Reflects name (h ++ [.add name rule]) where
  about := hd.about_concat rfl
  registered := hd.registered_concat
  rule id := by
    rw [Domain.add, added_resort, find?_place, lastChange?_concat]
    by_cases hid : rule.id = id
    · simp [hid, Operation.adds, Operation.rule?]
    · simp [hid, Operation.adds, Operation.removes, hd.rule id]
  slots := by
    rw [Domain.add, added_resort, ids_place]
    by_cases hmem : rule.id ∈ d.added.map Rule.id
    · rw [if_pos hmem]
      exact hd.slots_concat (List.Sublist.refl _) fun _ _ => rfl
    · rw [if_neg hmem]
      refine List.pairwise_append.2 ⟨hd.slots_concat (List.Sublist.refl _) fun _ _ => rfl,
        List.pairwise_singleton _ _, fun x hx y hy => ?_⟩
      obtain rfl := List.mem_singleton.1 hy
      have hpx := hd.present_iff.2 hx
      rw [slot_concat hpx rfl,
        slot_concat_adds (mt hd.present_iff.1 hmem) (by simp [Operation.adds])]
      exact slot_lt_length hpx
  backend := by rw [backend?_concat]; exact hd.backend
  enabled := by rw [enabled_concat]; exact hd.enabled

theorem remove (hd : d.Reflects name h) (id : RuleId) :
    (d.remove id).2.Reflects name (h ++ [.remove name id]) where
  about := hd.about_concat rfl
  registered := hd.registered_concat
  rule id' := by
    rw [snd_remove, added_resort, find?_eraseP hd.nodup, lastChange?_concat]
    by_cases hid : id = id'
    · simp [hid, Operation.removes, Operation.rule?]
    · simp [hid, Operation.adds, Operation.removes, hd.rule id']
  slots := by
    rw [snd_remove, added_resort, eraseP_eq_filter hd.nodup]
    refine hd.slots_concat (List.filter_sublist.map _) fun x hx => ?_
    obtain ⟨r, hr, rfl⟩ := List.mem_map.1 hx
    have hne : r.id ≠ id := by simpa using (List.mem_filter.1 hr).2
    simpa [Operation.removes] using Ne.symm hne
  backend := by rw [backend?_concat, snd_remove]; exact hd.backend
  enabled := by rw [enabled_concat, snd_remove]; exact hd.enabled

theorem after (hd : d.Reflects name h) (hop : op.domain = name) :
    (d.after op).Reflects name (h ++ [op]) := by
  cases op with
  | register name' backend => exact hd.settings hop fun _ => ⟨rfl, rfl⟩
  | setBackend name' backend => exact hd.settings hop fun _ => ⟨rfl, rfl⟩
  | setEnabled name' enabled => exact hd.settings hop fun _ => ⟨rfl, rfl⟩
  | add name' rule =>
    obtain rfl : name' = name := hop
    exact hd.add rule
  | remove name' id =>
    obtain rfl : name' = name := hop
    exact hd.remove id

end Domain.Reflects

/-! ## A whole run -/

namespace Registry

variable {r : Registry} {name : String} {h : List Operation} {op : Operation}

/-- The operations about a domain that succeed when they are done one after the other. -/
def calls (r : Registry) (name : String) : List Operation → List Operation
  | [] => []
  | op :: ops =>
    let rest := (r.step op).registry.calls name ops
    if op.domain = name ∧ (r.step op).answer.isOk = true then op :: rest else rest

structure Reflects (r : Registry) (name : String) (h : List Operation) : Prop where
  known : ∀ d, r.get? name = some d → d.Reflects name h
  unknown : r.get? name = none → h = []

theorem reflects_empty (name : String) : empty.Reflects name [] where
  known _ hd := nomatch hd
  unknown _ := rfl

theorem reflects_step (hr : r.Reflects name h) (op : Operation) :
    (r.step op).registry.Reflects name (h ++
      if op.domain = name ∧ (r.step op).answer.isOk = true then [op] else []) := by
  obtain ⟨hok, hsame⟩ | ⟨d, hok, -, hd, hnext⟩ := step_cases r op
  · simpa [hok, hsame] using hr
  · by_cases hop : op.domain = name
    · subst hop
      rw [if_pos ⟨rfl, hok⟩, hnext]
      refine ⟨fun d' hd' => ?_, fun hnone => ?_⟩
      · obtain rfl : d = d' := by simpa using hd'
        cases hget : r.get? op.domain with
        | some current =>
          rw [hget] at hd
          obtain rfl : current.after op = d := Option.some.inj hd
          exact (hr.known current hget).after rfl
        | none =>
          rw [hget] at hd
          rw [hr.unknown hget]
          cases op with
          | register name backend =>
            obtain rfl : Domain.new backend = d := Option.some.inj hd
            exact .new name backend
          | _ => cases hd
      · simp at hnone
    · rw [if_neg fun h => hop h.1, List.append_nil]
      have hget := get?_step_of_ne (r := r) hop
      exact ⟨fun d' hd' => hr.known d' (hget ▸ hd'), fun hnone => hr.unknown (hget ▸ hnone)⟩

theorem reflects_run (hr : r.Reflects name h) (ops : List Operation) :
    (r.run ops).Reflects name (h ++ r.calls name ops) := by
  induction ops generalizing r h with
  | nil => simpa [calls, run] using hr
  | cons op ops ih =>
    have hstep := ih (reflects_step hr op)
    rw [List.append_assoc] at hstep
    rw [calls]
    split
    · rename_i hcounts
      rwa [if_pos hcounts] at hstep
    · rename_i hcounts
      rwa [if_neg hcounts] at hstep

/-- A domain is there exactly if it has been registered. -/
theorem Reflects.get?_iff (hr : r.Reflects name h) :
    (∃ d, r.get? name = some d) ↔ ∃ backend, .register name backend ∈ h := by
  cases hget : r.get? name with
  | some d => simpa using (hr.known d hget).registered
  | none => simp [hr.unknown hget]

end Registry

/-! ## What the history tells -/

namespace Domain

variable {d : Domain} {name : String} {h : List Operation} {id : RuleId}

theorem filter_id_eq_singleton {rules : List Rule} (h : (rules.map Rule.id).Nodup) {rule : Rule}
    (hmem : rule ∈ rules) : rules.filter (·.id == rule.id) = [rule] := by
  induction rules with
  | nil => cases hmem
  | cons r rules ih =>
    obtain ⟨hr, hrules⟩ := List.nodup_cons.1 h
    rcases List.mem_cons.1 hmem with rfl | hmem
    · have hnone : rules.filter (·.id == rule.id) = [] := List.filter_eq_nil_iff.2 fun s hs => by
        have : s.id ≠ rule.id := fun heq => hr (List.mem_map.2 ⟨s, hs, heq⟩)
        simpa using this
      simp [hnone]
    · have hne : r.id ≠ rule.id := fun heq => hr (List.mem_map.2 ⟨rule, hmem, heq.symm⟩)
      simp [hne, ih hrules hmem]

theorem mem_rules_iff {r : Rule} : r ∈ d.rules ↔ r ∈ d.added := by
  rw [rules_eq]
  exact RuleSet.mem_rules

theorem Reflects.nodup_rules (hd : d.Reflects name h) : (d.rules.map Rule.id).Nodup := by
  rw [rules_eq]
  exact ((RuleSet.perm_rules d.added).map Rule.id).nodup_iff.2 hd.nodup

/-- The rules that are kept sorted go by rank, and then by slot. -/
theorem Reflects.pairwise_rules (hd : d.Reflects name h) : d.rules.Pairwise fun a b =>
    b.rank < a.rank ∨ (b.rank = a.rank ∧ slot a.id h < slot b.id h) := by
  have hslots := hd.slots
  rw [List.pairwise_map] at hslots
  rw [rules_eq]
  exact RuleSet.pairwise_rules hslots

/-- The rules that are there are those whose last change was their addition. -/
theorem Reflects.mem_rules_iff_lastChange? (hd : d.Reflects name h) {rule : Rule} :
    rule ∈ d.rules ↔ lastChange? rule.id h = some (.add name rule) := by
  have hfind := hd.rule rule.id
  rw [mem_rules_iff]
  constructor
  · intro hmem
    rw [← List.head?_filter, filter_id_eq_singleton hd.nodup hmem] at hfind
    obtain ⟨op, hlast, hop⟩ := Option.bind_eq_some_iff.1 hfind.symm
    have hop' := hd.about op (List.mem_of_mem_filter (List.mem_of_getLast? hlast))
    cases op with
    | add name' rule' =>
      obtain rfl : name' = name := hop'
      obtain rfl : rule' = rule := Option.some.inj hop
      exact hlast
    | _ => cases hop
  · intro hlast
    rw [hlast] at hfind
    exact List.mem_of_find?_eq_some hfind

end Domain

theorem History.id_of_lastChange? {id : RuleId} {h : List Operation} {name : String} {rule : Rule}
    (hlast : lastChange? id h = some (.add name rule)) : rule.id = id := by
  have := (List.mem_filter.1 (List.mem_of_getLast? hlast)).2
  simpa [Operation.adds, Operation.removes] using this

namespace Registry

/-- A domain that is registered again, or whose new backend is refused, keeps its rules and its
switch. -/
theorem get?_register_again {r : Registry} {name : String} {d : Domain}
    (hget : r.get? name = some d) (backend : String) :
    ∃ d', (r.step (.register name backend)).registry.get? name = some d' ∧
      d'.ruleSet = d.ruleSet ∧ d'.enabled = d.enabled := by
  have hleft := (get?_step r (.register name backend) name).trans (if_pos rfl)
  rw [hleft, hget, Operation.leaves]
  split
  · exact ⟨d, rfl, rfl, rfl⟩
  · exact ⟨_, rfl, rfl, rfl⟩

/-- **A registry is what its history says.** After any operations on an empty registry, a
registered domain is told by the operations on it that succeeded. A rule is there exactly if
the last change of its id was an addition; it is there once, and as it was added last. The
rules go by descending rank, and with equal ranks by when their ids came in. The backend is
the one asked for last, the switch is as set last and on at first; registering the domain
again changes neither the rules nor the switch. The names are the registered ones, sorted. -/
theorem determined_by_history (ops : List Operation) (name : String)
    (hreg : ∃ backend, .register name backend ∈ empty.calls name ops) :
    let r := empty.run ops
    let h := empty.calls name ops
    (∀ id, (∃ rule ∈ r.rules name, rule.id = id) ↔
      ∃ rule, lastChange? id h = some (.add name rule)) ∧
    (∀ id rule, lastChange? id h = some (.add name rule) →
      (r.rules name).filter (·.id == id) = [rule]) ∧
    (r.rules name).Pairwise (fun a b =>
      b.rank < a.rank ∨ (b.rank = a.rank ∧ slot a.id h < slot b.id h)) ∧
    r.defaultBackend? name = backend? h ∧ (backend? h).isSome = true ∧
    (r.get? name).map Domain.enabled = some (enabled h) ∧
    (∀ backend, let again := (r.step (.register name backend)).registry
      again.rules name = r.rules name ∧
        (again.get? name).map Domain.enabled = (r.get? name).map Domain.enabled) ∧
    r.names.Pairwise (· < ·) ∧
    ∀ other, other ∈ r.names ↔ ∃ backend, .register other backend ∈ empty.calls other ops := by
  intro r h
  have hr (other : String) : r.Reflects other (empty.calls other ops) :=
    reflects_run (reflects_empty other) ops
  obtain ⟨d, hget⟩ := (hr name).get?_iff.2 hreg
  have hd : d.Reflects name h := (hr name).known d hget
  have hrules : r.rules name = d.rules := by rw [rules, hget]; rfl
  have hmem {rule : Rule} : rule ∈ d.rules ↔ lastChange? rule.id h = some (.add name rule) :=
    hd.mem_rules_iff_lastChange?
  rw [hrules]
  refine ⟨fun id => ?_, fun id rule hlast => ?_, hd.pairwise_rules, ?_, ?_, ?_,
    fun backend => ?_, r.domains.sorted_names, fun other => ?_⟩
  · constructor
    · intro hin
      obtain ⟨rule, hrule, rfl⟩ := hin
      exact ⟨rule, hmem.1 hrule⟩
    · intro hlast
      obtain ⟨rule, hlast⟩ := hlast
      obtain rfl := id_of_lastChange? hlast
      exact ⟨rule, hmem.2 hlast, rfl⟩
  · obtain rfl := id_of_lastChange? hlast
    exact Domain.filter_id_eq_singleton hd.nodup_rules (hmem.2 hlast)
  · rw [hd.backend, defaultBackend?, hget]; rfl
  · rw [hd.backend]; rfl
  · rw [hd.enabled, hget]; rfl
  · obtain ⟨d', hagain, hset, henabled⟩ := get?_register_again hget backend
    simp only [rules, hagain, hget, Option.map_some, Option.getD_some, Domain.rules, hset, henabled,
      and_self]
  · rw [← (hr other).get?_iff]
    exact r.domains.mem_names_iff other

/-- A rule that is told apart by its id and its link. -/
def sampleRule (id link : String) : Rule :=
  .new (.given id) link ⟨"equals(Action,'x')", .ok (.test .equals .action "x")⟩

/-- A rule is replaced, another one is removed and comes back, and two operations fail. -/
def sampleHistory : List Operation :=
  [.register "lane" "D", .add "lane" (sampleRule "a" "A"), .add "lane" (sampleRule "b" "B"),
    .add "lane" (sampleRule "c" "C"), .remove "lane" (.given "a"), .setEnabled "other" false,
    .add "lane" (sampleRule "b" "B2"), .add "lane" (sampleRule "a" "A2"),
    .setBackend "lane" " ", .register "lane" "E"]

/-- In the sample history the rule that was replaced is there as it was added last, and the
backend is that of the second registration. -/
theorem told_by_sample_history :
    (∃ backend, .register "lane" backend ∈ empty.calls "lane" sampleHistory) ∧
      ((empty.run sampleHistory).rules "lane").filter (·.id == .given "b") =
        [sampleRule "b" "B2"] ∧
      (empty.run sampleHistory).defaultBackend? "lane" = some "E" := by
  have hcalls : empty.calls "lane" sampleHistory =
      [.register "lane" "D", .add "lane" (sampleRule "a" "A"), .add "lane" (sampleRule "b" "B"),
        .add "lane" (sampleRule "c" "C"), .remove "lane" (.given "a"),
        .add "lane" (sampleRule "b" "B2"), .add "lane" (sampleRule "a" "A2"),
        .register "lane" "E"] := rfl
  have hreg : ∃ backend, .register "lane" backend ∈ empty.calls "lane" sampleHistory :=
    ⟨"D", by rw [hcalls]; exact List.mem_cons_self⟩
  have htold := determined_by_history sampleHistory "lane" hreg
  rw [hcalls] at htold
  exact ⟨hreg, htold.2.1 (.given "b") _ rfl, htold.2.2.2.1⟩

end Registry
end BackendRouting
