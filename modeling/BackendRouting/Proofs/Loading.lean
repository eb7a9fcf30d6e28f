import BackendRouting.Proofs.Listing
import BackendRouting.Proofs.Selection
import BackendRouting.Proofs.SetUp

/-!
# What a configuration routes to

Where a configured domain sends a message can be told from its entry alone
(`DomainEntry.RoutesTo`). That the registry built from the configuration does the same is
shown along the way an entry takes: it becomes a rule, the rules are added to a domain one
by one, and the rule set of this domain selects.

* `rules_ofEntries`: the loaded rules, in the order of their entries.
* `built_eq`: with ids told apart, a domain ends up with just the loaded rules.
* `routesTo_built`: such a domain sends a message where its entry says.
* `build_routes_as_configured`: from the document to the link.
-/
namespace BackendRouting

theorem Pattern.ofValidText_eq_ok_iff {text : String} {p : Pattern} :
    ofValidText text = .ok p ↔ ∃ e, read? text = some (.ok e) ∧ p = ⟨text, .ok e⟩ := by
  unfold ofValidText ofText
  cases hread : read? text with
  | none => simp [Except.bind]
  | some outcome => cases outcome <;> simp [Except.bind, checked, eq_comm]

namespace Config

/-! ## What is configured -/

/-- The entry has a link, and its clause is a valid pattern that holds for the message. Blank
text is no pattern. -/
structure RuleEntry.Eligible (entry : RuleEntry) (m : Message) : Prop where
  linked : Text.isBlank entry.link = false
  holds : ∃ e, Pattern.read? entry.clause = some (.ok e) ∧ e.holds m = true

/-- Of the eligible entries, the one at place `i` ranks highest, and of several of this rank
it comes first in the document. -/
structure DomainEntry.Leads (d : DomainEntry) (m : Message) (i : Nat) (entry : RuleEntry) :
    Prop where
  there : ∃ id, d.rules[i]? = some (id, entry)
  eligible : entry.Eligible m
  ahead : ∀ (j : Nat) (id : String) (other : RuleEntry), j ≠ i → d.rules[j]? = some (id, other) →
    other.Eligible m → Priority.rank other.priority < Priority.rank entry.priority ∨
      (Priority.rank other.priority = Priority.rank entry.priority ∧ i < j)

/-- Where the domain sends a message, as its entry says. -/
inductive DomainEntry.RoutesTo (d : DomainEntry) (m : Message) : String → Prop where
  | disabled (henabled : d.enabled = false) : RoutesTo d m d.defaultBackend
  | matched {i : Nat} {entry : RuleEntry} (henabled : d.enabled = true)
      (hleads : d.Leads m i entry) : RoutesTo d m entry.link
  | unmatched (henabled : d.enabled = true) (hnone : ∀ entry ∈ d.rules, ¬ entry.2.Eligible m) :
      RoutesTo d m d.defaultBackend

/-- The least name of a domain whose default backend is blank. -/
structure FirstUnbacked (c : Config) (name : String) : Prop where
  blank : ∃ d, c.domains.get? name = some d ∧ Text.isBlank d.defaultBackend = true
  least : ∀ other d, c.domains.get? other = some d → Text.isBlank d.defaultBackend = true →
    name ≤ other

namespace DomainEntry

variable {d : DomainEntry} {m : Message}

theorem Leads.mem {i : Nat} {entry : RuleEntry} (h : d.Leads m i entry) :
    ∃ id, (id, entry) ∈ d.rules :=
  h.there.imp fun _ => List.mem_of_getElem?

theorem Leads.unique {i j : Nat} {entry other : RuleEntry} (h : d.Leads m i entry)
    (h' : d.Leads m j other) : other = entry := by
  obtain ⟨id, hi⟩ := h.there
  obtain ⟨id', hj⟩ := h'.there
  by_cases hij : j = i
  · rw [hij, hi] at hj
    exact (Prod.ext_iff.1 (Option.some.inj hj)).2.symm
  · have := h.ahead j id' other hij hj h'.eligible
    have := h'.ahead i id entry (Ne.symm hij) hi h.eligible
    omega

/-- The entry of a domain says one place for a message. -/
theorem RoutesTo.unique {link other : String} (h : d.RoutesTo m link) (h' : d.RoutesTo m other) :
    other = link := by
  cases h with
  | disabled henabled =>
    cases h' with
    | disabled henabled' => rfl
    | matched henabled' hleads' => rw [henabled] at henabled'; cases henabled'
    | unmatched henabled' hnone' => rfl
  | matched henabled hleads =>
    cases h' with
    | disabled henabled' => rw [henabled] at henabled'; cases henabled'
    | matched henabled' hleads' => rw [hleads.unique hleads']
    | unmatched henabled' hnone =>
      obtain ⟨id, hmem⟩ := hleads.mem
      exact absurd hleads.eligible (hnone _ hmem)
  | unmatched henabled hnone =>
    cases h' with
    | disabled henabled' => rfl
    | matched henabled' hleads =>
      obtain ⟨id, hmem⟩ := hleads.mem
      exact absurd hleads.eligible (hnone _ hmem)
    | unmatched henabled' hnone' => rfl

end DomainEntry

/-! ## From an entry to a rule -/

theorem RuleEntry.rule_eq_ok_iff {entry : RuleEntry} {id : String} {rule : Rule} :
    entry.rule id = .ok rule ↔ Text.isBlank entry.link = false ∧
      ∃ e, Pattern.read? entry.clause = some (.ok e) ∧
        rule = { id := .given id, link := entry.link, pattern := ⟨entry.clause, .ok e⟩,
                 priority := entry.priority, description := entry.description,
                 source := .environment, deleted := false } := by
  unfold RuleEntry.rule
  cases hlink : Text.isBlank entry.link with
  | true => simp [throw, throwThe, MonadExceptOf.throw, bind, Except.bind]
  | false =>
    cases hp : Pattern.ofValidText entry.clause with
    | error err =>
      have hnone : ∀ e, Pattern.read? entry.clause ≠ some (.ok e) := fun e he => by
        rw [Pattern.ofValidText_eq_ok_iff.2 ⟨e, he, rfl⟩] at hp
        cases hp
      simp [hnone, bind, Except.bind]
    | ok p =>
      obtain ⟨e, he, rfl⟩ := Pattern.ofValidText_eq_ok_iff.1 hp
      simp [he, bind, Except.bind, pure, Except.pure, eq_comm]

theorem RuleEntry.fields_of_rule {entry : RuleEntry} {id : String} {rule : Rule}
    (h : entry.rule id = .ok rule) :
    rule.id = .given id ∧ rule.link = entry.link ∧ rule.rank = Priority.rank entry.priority := by
  obtain ⟨-, e, -, rfl⟩ := RuleEntry.rule_eq_ok_iff.1 h
  exact ⟨rfl, rfl, rfl⟩

/-- A rule applies to the messages for which its entry is eligible. -/
theorem RuleEntry.appliesTo_iff {entry : RuleEntry} {id : String} {rule : Rule}
    (h : entry.rule id = .ok rule) (m : Message) :
    rule.appliesTo m = true ↔ entry.Eligible m := by
  obtain ⟨hlink, e, he, rfl⟩ := RuleEntry.rule_eq_ok_iff.1 h
  rw [Rule.appliesTo_iff]
  constructor
  · intro happ
    obtain ⟨e', he', hm⟩ := happ.holds
    obtain rfl := Except.ok.inj he'
    exact ⟨hlink, e, he, hm⟩
  · intro helig
    obtain ⟨e', he', hm⟩ := helig.holds
    rw [he] at he'
    obtain rfl := Except.ok.inj (Option.some.inj he')
    exact ⟨rfl, e, rfl, hm⟩

/-- The rule of an entry with its id, if the entry is not rejected. -/
def loaded? (entry : String × RuleEntry) : Option Rule :=
  (entry.2.rule entry.1).toOption

theorem loaded?_eq_some_iff {entry : String × RuleEntry} {rule : Rule} :
    loaded? entry = some rule ↔ entry.2.rule entry.1 = .ok rule := by
  unfold loaded?
  cases entry.2.rule entry.1 <;> simp [Except.toOption]

theorem rules_ofEntries (entries : List (String × RuleEntry)) :
    (Loaded.ofEntries entries).rules = entries.filterMap loaded? := by
  induction entries with
  | nil => rfl
  | cons entry entries ih =>
    rw [Loaded.ofEntries, List.filterMap_cons, loaded?, ← ih]
    cases entry.2.rule entry.1 <;> rfl

/-- The rule of an eligible entry is loaded, with the rank of the entry, and it applies. -/
theorem RuleEntry.Eligible.exists_loaded {entries : List (String × RuleEntry)}
    {entry : String × RuleEntry} {m : Message} (h : entry.2.Eligible m) (hmem : entry ∈ entries) :
    ∃ rule ∈ entries.filterMap loaded?, rule.appliesTo m = true ∧
      rule.rank = Priority.rank entry.2.priority := by
  obtain ⟨e, he, -⟩ := h.holds
  obtain ⟨rule, hrule⟩ : ∃ rule, entry.2.rule entry.1 = .ok rule :=
    ⟨_, RuleEntry.rule_eq_ok_iff.2 ⟨h.linked, e, he, rfl⟩⟩
  exact ⟨rule, List.mem_filterMap.2 ⟨entry, hmem, loaded?_eq_some_iff.2 hrule⟩,
    (RuleEntry.appliesTo_iff hrule m).2 h, (RuleEntry.fields_of_rule hrule).2.2⟩

theorem nodup_ids_load {d : DomainEntry} (h : RulesDistinct d.rules) :
    (d.load.rules.map Rule.id).Nodup := by
  rw [DomainEntry.load, rules_ofEntries, List.Nodup, List.pairwise_map, List.pairwise_filterMap]
  refine (List.pairwise_map.1 h).imp fun {entry other} hne rule hrule rule' hrule' heq => hne ?_
  rw [(RuleEntry.fields_of_rule (loaded?_eq_some_iff.1 hrule)).1,
    (RuleEntry.fields_of_rule (loaded?_eq_some_iff.1 hrule')).1] at heq
  exact RuleId.given.inj heq

/-! ## From the rules to the link -/

variable {d : DomainEntry} {m : Message}

theorem not_eligible_of_select? (h : (RuleSet.ofList d.load.rules).select? m = none) :
    ∀ entry ∈ d.rules, ¬ entry.2.Eligible m := by
  intro entry hentry helig
  obtain ⟨rule, hmem, happ, -⟩ := helig.exists_loaded hentry
  rw [DomainEntry.load, rules_ofEntries] at h
  rw [RuleSet.select?_eq_none_iff.1 h rule hmem] at happ
  cases happ

/-- What is left of a list by `filterMap` stands in it as it stands in what is left. -/
theorem exists_split_of_filterMap {α β : Type} {f : α → Option β} {l : List α} {b : β}
    {before after : List β} (h : l.filterMap f = before ++ b :: after) :
    ∃ left a right, l = left ++ a :: right ∧ left.filterMap f = before ∧ f a = some b ∧
      right.filterMap f = after := by
  obtain ⟨left, rest, rfl, hleft, hrest⟩ := List.filterMap_eq_append_iff.1 h
  obtain ⟨skipped, a, right, rfl, hskipped, ha, hright⟩ := List.filterMap_eq_cons_iff.1 hrest
  refine ⟨left ++ skipped, a, right, by rw [List.append_assoc], ?_, ha, hright⟩
  rw [List.filterMap_append, hleft, List.filterMap_eq_nil_iff.2 hskipped, List.append_nil]

/-- Rejected entries take no part: among the entries before and after the one that leads, the
eligible ones have their rules before and after its rule. -/
theorem leads_of_select? {rule : Rule}
    (h : (RuleSet.ofList d.load.rules).select? m = some rule) :
    ∃ i entry, d.Leads m i entry ∧ rule.link = entry.link := by
  obtain ⟨before, after, hcut, happ, hbefore, hafter⟩ := RuleSet.select?_eq_some_iff.1 h
  rw [DomainEntry.load, rules_ofEntries] at hcut
  obtain ⟨left, ⟨id, entry⟩, right, hplaces, rfl, hentry, rfl⟩ := exists_split_of_filterMap hcut
  have hrule := loaded?_eq_some_iff.1 hentry
  obtain ⟨-, hlink, hrank⟩ := RuleEntry.fields_of_rule hrule
  have hleads : ∃ i : Nat, d.rules[i]? = some (id, entry) ∧
      ∀ (j : Nat) (other : String × RuleEntry), j ≠ i → d.rules[j]? = some other →
        other.2.Eligible m → Priority.rank other.2.priority < Priority.rank entry.priority ∨
          (Priority.rank other.2.priority = Priority.rank entry.priority ∧ i < j) := by
    refine exists_leading_iff.1 ⟨left, right, hplaces, fun other hother helig => ?_,
      fun other hother helig => ?_⟩
    · obtain ⟨s, hs, hsapp, hsrank⟩ := helig.exists_loaded hother
      rw [← hsrank, ← hrank]
      exact hbefore s hs hsapp
    · obtain ⟨s, hs, hsapp, hsrank⟩ := helig.exists_loaded hother
      rw [← hsrank, ← hrank]
      exact hafter s hs hsapp
  obtain ⟨i, hi, hall⟩ := hleads
  exact ⟨i, entry, ⟨⟨id, hi⟩, (RuleEntry.appliesTo_iff hrule m).1 happ,
    fun j id' other => hall j (id', other)⟩, hlink⟩

theorem built_eq (h : RulesDistinct d.rules) :
    d.built = Domain.resort { Domain.new d.defaultBackend with enabled := d.enabled } d.load.rules :=
  Domain.foldl_add (nodup_ids_load h)

theorem routesTo_built (h : RulesDistinct d.rules) (m : Message) :
    d.RoutesTo m (d.built.route m).link := by
  rw [built_eq h]
  unfold Domain.route Domain.resort Domain.new
  cases henabled : d.enabled with
  | false => exact .disabled henabled
  | true =>
    simp only [if_true]
    cases hsel : (RuleSet.ofList d.load.rules).select? m with
    | none => exact .unmatched henabled (not_eligible_of_select? hsel)
    | some rule =>
      obtain ⟨i, entry, hleads, hlink⟩ := leads_of_select? hsel
      simp only [Option.elim_some, Verdict.link, hlink]
      exact .matched henabled hleads

/-! ## Whole configurations -/

theorem firstUnbacked_of_unbacked? {c : Config} {name : String} (h : c.unbacked? = some name) :
    c.FirstUnbacked name := by
  obtain ⟨⟨name, d⟩, hfind, rfl⟩ := Option.map_eq_some_iff.1 h
  obtain ⟨hblank, before, after, hcut, hbefore⟩ := List.find?_eq_some_iff_append.1 hfind
  refine ⟨⟨d, Directory.get?_eq_some_iff.2 (List.mem_of_find?_eq_some hfind), hblank⟩,
    fun other d' hother hblank' => ?_⟩
  have hmem := Directory.get?_eq_some_iff.1 hother
  rw [hcut] at hmem
  rcases List.mem_append.1 hmem with hmem | hmem
  · have := hbefore _ hmem
    simp [hblank'] at this
  · rcases List.mem_cons.1 hmem with heq | hmem
    · obtain rfl : other = name := congrArg Prod.fst heq
      exact String.le_refl _
    · have hlt := (List.pairwise_cons.1 (List.pairwise_append.1 (hcut ▸ c.domains.sorted)).2.1).1
      exact Std.le_of_lt (hlt _ hmem)

/-- **Configurations.** Reading a document tells the rules of each domain apart. A
configuration with rules told apart fails to build exactly if some domain has no default
backend, and the least such domain is named. Otherwise the registry has the configured
domains, each of them sends every message where its entry says, and there is no other
domain. -/
theorem build_routes_as_configured :
    (∀ document c, ofDocument document = .ok c → c.IdsDistinct) ∧
    ∀ c : Config, c.IdsDistinct →
      ((∃ err, c.build = .error err) ↔
        ∃ name d, c.domains.get? name = some d ∧ Text.isBlank d.defaultBackend = true) ∧
      (∀ err, c.build = .error err →
        c.validate = .error err ∧ ∃ name, c.FirstUnbacked name ∧ err = .noBackend name) ∧
      ∀ setup, c.build = .ok setup →
        setup.registry.names = c.domains.names ∧
        (∀ name d m, c.domains.get? name = some d → ∃ link,
          setup.registry.link? name m = some link ∧ ∀ other, d.RoutesTo m other ↔ other = link) ∧
        ∀ name m, c.domains.get? name = none → setup.registry.link? name m = none := by
  refine ⟨fun document c => idsDistinct_of_ofDocument, fun c hids => ?_⟩
  cases h : c.unbacked? with
  | some name =>
    have hfirst := firstUnbacked_of_unbacked? h
    have hvalidate : c.validate = .error (.noBackend name) := by rw [validate, h]
    rw [build_of_unbacked h, hvalidate]
    refine ⟨⟨fun _ => ⟨name, hfirst.blank⟩, fun _ => ⟨_, rfl⟩⟩, fun err herr => ?_,
      fun setup hok => ?_⟩
    · obtain rfl := Except.error.inj herr
      exact ⟨rfl, name, hfirst, rfl⟩
    · cases hok
  | none =>
    have hbuild := build_of_backed h
    refine ⟨⟨fun hfail => ?_, fun hblank => ?_⟩, fun err herr => ?_, fun setup hok => ?_⟩
    · obtain ⟨err, herr⟩ := hfail
      rw [hbuild] at herr
      cases herr
    · obtain ⟨name, d, hd, hblank⟩ := hblank
      rw [unbacked?_eq_none_iff.1 h name d hd] at hblank
      cases hblank
    · rw [hbuild] at herr
      cases herr
    · have hget := get?_build hok
      refine ⟨Directory.names_eq_of_mem_iff fun name => ?_, fun name d m hd => ?_,
        fun name m hnone => ?_⟩
      · rw [Directory.mem_names_iff, Directory.mem_names_iff]
        have := hget name
        rw [Registry.get?] at this
        cases hd : c.domains.get? name <;> simp [this, hd]
      · have hroutes := routesTo_built (hids _ (Directory.get?_eq_some_iff.1 hd)) m
        refine ⟨(d.built.route m).link, ?_, fun other => ⟨fun hother => ?_, ?_⟩⟩
        · rw [Registry.link?_eq, hget, hd]
          rfl
        · exact hroutes.unique hother
        · rintro rfl
          exact hroutes
      · rw [Registry.link?_eq, hget, hnone]
        rfl

/-- The domain of a short document, and one in which two rules tie and the entry that ranks
highest has no link. -/
def sample : Config :=
  ⟨.ofList [
    ("mail", ⟨false, "M", []⟩),
    ("shop", ⟨true, "S", [
      ("a", ⟨" ", "equals(Action,'x')", Priority.first, ""⟩),
      ("b", ⟨"B", "equals(Action,'x')", 5, ""⟩),
      ("c", ⟨"C", "equals(Action,'x')", 5, ""⟩)]⟩)]⟩

/-- The short document is read, and the sample sends a message to the first of the rules that
tie. -/
theorem routes_of_sample :
    (∃ c, ofText "domains:\n mail:\n  enabled: false\n  default-backend-name: M" = .ok c ∧
      c.domains.get? "mail" = sample.domains.get? "mail" ∧ c.IdsDistinct) ∧
    sample.IdsDistinct ∧ ∃ setup, sample.build = .ok setup ∧
      setup.registry.names = ["mail", "shop"] ∧
      setup.registry.link? "shop" (.ofList [(.action, "x")]) = some "B" ∧
      setup.registry.link? "other" (.ofList [(.action, "x")]) = none := by
  have hread : ofText "domains:\n mail:\n  enabled: false\n  default-backend-name: M" =
      .ok ⟨.ofList [("mail", ⟨false, "M", []⟩)]⟩ := by decide +kernel
  have hids : sample.IdsDistinct := by decide +kernel
  refine ⟨⟨_, hread, rfl, build_routes_as_configured.1 _ _ hread⟩, hids, ?_⟩
  obtain ⟨hfails, -, hroutes⟩ := build_routes_as_configured.2 sample hids
  have hnone : sample.unbacked? = none := by decide +kernel
  cases hbuild : sample.build with
  | error err =>
    obtain ⟨name, d, hd, hblank⟩ := hfails.1 ⟨err, hbuild⟩
    rw [unbacked?_eq_none_iff.1 hnone name d hd] at hblank
    cases hblank
  | ok setup =>
    obtain ⟨hnames, hlinks, hothers⟩ := hroutes setup hbuild
    obtain ⟨link, hlink, hunique⟩ := hlinks "shop" _ (.ofList [(.action, "x")]) rfl
    have heligible : RuleEntry.Eligible ⟨"B", "equals(Action,'x')", 5, ""⟩
        (.ofList [(.action, "x")]) :=
      ⟨by decide, .test .equals .action "x", by decide +kernel, by decide +kernel⟩
    refine ⟨setup, rfl, hnames.trans (by decide +kernel), ?_, hothers _ _ (by decide +kernel)⟩
    rw [hlink, (hunique "B").1 (.matched (i := 1) rfl ⟨⟨"b", rfl⟩, heligible, ?_⟩)]
    intro j id other hne hj helig
    match j, hne, hj with
    | 0, _, hj =>
      obtain rfl := congrArg Prod.snd (Option.some.inj hj)
      exact absurd helig.linked (by decide)
    | 1, hne, _ => exact absurd rfl hne
    | 2, _, hj =>
      obtain rfl := congrArg Prod.snd (Option.some.inj hj)
      exact .inr ⟨rfl, by decide⟩
    | j + 3, _, hj => cases hj

end Config
end BackendRouting
