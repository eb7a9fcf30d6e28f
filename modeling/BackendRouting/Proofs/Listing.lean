import BackendRouting.Proofs.Decoding
import Mathlib.Control.Monad.Basic

/-!
# What a document lists

A document lists domains, and each domain rule entries, in the order of its text and with all
repetitions (`Yaml.Document.domains?`). Reading it gives nothing else: a rule that is listed twice
in one domain is a fault, but of two domains of one name the later one stays alone.

* `givesIn_asText` to `givesIn_asMapping`: the values of single nodes.
* `FieldRead.other`, `FieldRead.set`: a field is told by its entry, wherever this stands among the
  others.
* `givesIn_decodeRules`, `givesIn_decodeDomains`, `lists_of_ofDocument`: all entries are read.
* `idsDistinct_of_ofDocument`: in a configuration that has been read the rules of each domain
  have different ids.
* `last_domain_is_kept`: which of the listed rules are in the configuration.
-/
namespace BackendRouting

open Config (Decoder RuleEntry DomainEntry RuleFields DomainFields)
open Config.Decoder (GivesIn givesIn_pure givesIn_throw givesIn_throw_bind givesIn_true)

/-! ## What a node says -/

namespace Yaml.Node

section

variable (anchors : List (Nat × Node))

/-- A reference means its anchored node, and any other node means itself. -/
def meant : Node → Node
  | reference anchor => (anchors.lookup anchor).getD .cut
  | node => node

def text? (n : Node) : Option String :=
  match n.meant anchors with
  | scalar _ _ text => some text
  | _ => none

def word? (tag : String) (n : Node) : Option String :=
  match n.meant anchors with
  | scalar .plain _ text => some text
  | scalar .literal (some t) text => if t = tag then some text else none
  | _ => none

def flag? (n : Node) : Option Bool := do
  let word ← n.word? anchors "tag:yaml.org,2002:bool"
  if word ∈ ["true", "True", "TRUE"] then some true
  else if word ∈ ["false", "False", "FALSE"] then some false
  else none

def number? (n : Node) : Option Int32 := do
  int32? (← n.word? anchors "tag:yaml.org,2002:int")

def entries? (n : Node) : Option (List (Node × Node)) :=
  match n.meant anchors with
  | mapping entries => some entries
  | scalar .plain _ "" => some []
  | _ => none

/-- What stands under a name among the entries of a mapping. -/
def field? (name : String) (entries : List (Node × Node)) : Option Node :=
  (entries.find? fun entry => entry.1.text? anchors == some name).map Prod.snd

/-- What a field says, or the default if the field is left out. -/
def fieldOr {α : Type} (name : String) (view : Node → Option α) (default? : Option α)
    (entries : List (Node × Node)) : Option α :=
  (field? anchors name entries).elim default? view

/-- An entry of a mapping by its name. -/
def listed? {α : Type} (view : Node → Option α) (entry : Node × Node) : Option (String × α) := do
  return (← entry.1.text? anchors, ← view entry.2)

/-- The entries of a mapping in order, repeated names included. -/
def listing? {α : Type} (view : Node → Option α) (n : Node) : Option (List (String × α)) := do
  (← n.entries? anchors).mapM (listed? anchors view)

/-! ## What is configured in a tree -/

def configuredRule? (n : Node) : Option RuleEntry := do
  let entries ← n.entries? anchors
  return {
    link := ← fieldOr anchors "link-name" (text? anchors) none entries
    clause := ← fieldOr anchors "match-clause" (text? anchors) (some "") entries
    priority := ← fieldOr anchors "priority" (number? anchors) (some 0) entries
    description := ← fieldOr anchors "description" (text? anchors) (some "") entries }

def configuredDomain? (n : Node) : Option DomainEntry := do
  let entries ← n.entries? anchors
  return {
    enabled := ← fieldOr anchors "enabled" (flag? anchors) (some true) entries
    defaultBackend := ← fieldOr anchors "default-backend-name" (text? anchors) (some "") entries
    rules := ← fieldOr anchors "backend-rules" (listing? anchors (configuredRule? anchors))
      (some []) entries }

end

end Yaml.Node

/-- The domains in the order of the text, with those that are named again. -/
def Yaml.Document.domains? (d : Yaml.Document) : Option (List (String × DomainEntry)) := do
  Node.fieldOr d.anchors "domains" (Node.listing? d.anchors (Node.configuredDomain? d.anchors))
    (some []) (← d.root.entries? d.anchors)

namespace Config

open Yaml (Node)

variable {scope : Scope} {n : Node}

/-! ## Single values -/

theorem givesIn_read : GivesIn (read : Decoder Scope) scope fun s => s = scope := by
  intro followed s followed' hrun
  cases hrun
  rfl

theorem givesIn_target : n.target.GivesIn scope fun n' => n' = n.meant scope.anchors := by
  cases n with
  | reference anchor =>
    refine givesIn_read.bind fun s hs => (givesIn_true _).bind fun followed _ =>
      (givesIn_true _).bind fun _ _ => ?_
    subst hs
    by_cases hlimit : s.limit < followed + 1
    · rw [if_pos hlimit]
      exact givesIn_throw_bind _
    · rw [if_neg hlimit, Node.meant]
      cases s.anchors.lookup anchor with
      | some node => exact givesIn_pure rfl
      | none => exact givesIn_throw _
  | scalar style tag text => exact givesIn_pure rfl
  | sequence items => exact givesIn_pure rfl
  | mapping entries => exact givesIn_pure rfl
  | cut => exact givesIn_pure rfl

theorem givesIn_asText : n.asText.GivesIn scope fun t => n.text? scope.anchors = some t := by
  refine givesIn_target.bind fun n' hn' => ?_
  unfold Node.text?
  rw [← hn']
  cases n' with
  | scalar style tag text => exact givesIn_pure rfl
  | sequence items => exact givesIn_throw _
  | mapping entries => exact givesIn_throw _
  | reference anchor => exact givesIn_throw _
  | cut => exact givesIn_throw _

theorem givesIn_asWord (tag : String) :
    (n.asWord tag).GivesIn scope fun word => n.word? scope.anchors tag = some word := by
  refine givesIn_target.bind fun n' hn' => ?_
  unfold Node.word?
  rw [← hn']
  split
  · exact givesIn_pure rfl
  · split
    · rename_i htag
      exact givesIn_pure (if_pos htag)
    · exact givesIn_throw _
  · exact givesIn_throw _
  · exact givesIn_throw _

theorem givesIn_asFlag : n.asFlag.GivesIn scope fun b => n.flag? scope.anchors = some b := by
  refine (givesIn_asWord _).bind fun word hword => ?_
  unfold Node.flag?
  rw [hword, Option.bind_eq_bind, Option.bind_some]
  split
  · exact givesIn_pure rfl
  · split
    · exact givesIn_pure rfl
    · exact givesIn_throw _

theorem givesIn_asInt32 : n.asInt32.GivesIn scope fun i => n.number? scope.anchors = some i := by
  refine (givesIn_asWord _).bind fun word hword => ?_
  unfold Node.number?
  rw [hword, Option.bind_eq_bind, Option.bind_some]
  cases Yaml.int32? word with
  | some value => exact givesIn_pure rfl
  | none => exact givesIn_throw _

theorem givesIn_asMapping :
    n.asMapping.GivesIn scope fun entries => n.entries? scope.anchors = some entries := by
  refine givesIn_target.bind fun n' hn' => ?_
  unfold Node.entries?
  rw [← hn']
  split
  · exact givesIn_pure rfl
  · exact givesIn_pure rfl
  · exact givesIn_throw _
  · exact givesIn_throw _

/-! ## Fields -/

/-- What has been read of a field, if anything, is what stands for it among the entries. -/
def FieldRead {α : Type} (anchors : List (Nat × Node)) (entries : List (Node × Node))
    (name : String) (R : Node → α → Prop) (a? : Option α) : Prop :=
  Option.Rel R (Node.field? anchors name entries) a?

namespace FieldRead

variable {α : Type} {anchors : List (Nat × Node)} {entries : List (Node × Node)}
  {entry : Node × Node} {name name' : String} {R : Node → α → Prop} {a? : Option α}

theorem nil : FieldRead anchors [] name R none := .none

/-- Either there is such an entry and it has been read, or there is none. -/
theorem cases_field (h : FieldRead anchors entries name R a?) :
    (Node.field? anchors name entries = none ∧ a? = none) ∨
      ∃ v a, Node.field? anchors name entries = some v ∧ a? = some a ∧ R v a := by
  unfold FieldRead at h
  generalize Node.field? anchors name entries = found at h
  cases h with
  | none => exact .inl ⟨rfl, rfl⟩
  | some h => exact .inr ⟨_, _, rfl, rfl, h⟩

/-- An entry of another field says nothing of this one. -/
theorem other (h : FieldRead anchors entries name R a?)
    (hkey : entry.1.text? anchors = some name') (hne : name' ≠ name) :
    FieldRead anchors (entries ++ [entry]) name R a? := by
  unfold FieldRead Node.field? at *
  rw [List.find?_append, List.find?_cons_of_neg (by simp [hkey, hne]), List.find?_nil,
    Option.or_none]
  exact h

/-- A field that is set is read from its first entry. -/
theorem set {value : Decoder α} (h : FieldRead scope.anchors entries name R a?)
    (hkey : entry.1.text? scope.anchors = some name) (hvalue : value.GivesIn scope (R entry.2)) :
    (setOnce name a? value).GivesIn scope
      (FieldRead scope.anchors (entries ++ [entry]) name R) := by
  cases a? with
  | some a => exact givesIn_throw _
  | none =>
    refine hvalue.bind fun a ha => givesIn_pure ?_
    have hnone : entries.find? (fun entry => entry.1.text? scope.anchors == some name) = none := by
      rcases h.cases_field with ⟨hfield, -⟩ | ⟨_, _, -, hnone, -⟩
      · exact Option.map_eq_none_iff.1 hfield
      · cases hnone
    unfold FieldRead Node.field?
    rw [List.find?_append, hnone, List.find?_cons_of_pos (by simp [hkey])]
    exact .some ha

theorem fieldOr_eq {view : Node → Option α} {default? : Option α}
    (h : FieldRead anchors entries name (fun v a => view v = some a) a?) :
    Node.fieldOr anchors name view default? entries = a?.or default? := by
  unfold Node.fieldOr
  rcases h.cases_field with ⟨hfield, rfl⟩ | ⟨v, a, hfield, rfl, hview⟩
  · rw [hfield]
    rfl
  · rw [hfield]
    exact hview

theorem mono {R' : Node → α → Prop} (h : FieldRead anchors entries name R a?)
    (hR : ∀ v a, R v a → R' v a) : FieldRead anchors entries name R' a? := by
  unfold FieldRead
  rcases h.cases_field with ⟨hfield, rfl⟩ | ⟨v, a, hfield, rfl, ha⟩
  · rw [hfield]
    exact .none
  · rw [hfield]
    exact .some (hR v a ha)

theorem exists_of_mem {a : α} (h : FieldRead anchors entries name R a?) (ha : a ∈ a?) :
    ∃ v, R v a := by
  rcases h.cases_field with ⟨-, rfl⟩ | ⟨v, a', -, rfl, ha'⟩
  · cases ha
  · obtain rfl := Option.some.inj ha
    exact ⟨v, ha'⟩

end FieldRead

/-! ## Rule entries -/

/-- The fields are those of the entries that have been read. -/
structure RuleFields.ReadFrom (anchors : List (Nat × Node)) (entries : List (Node × Node))
    (f : RuleFields) : Prop where
  link : FieldRead anchors entries "link-name" (fun v a => v.text? anchors = some a) f.link?
  clause : FieldRead anchors entries "match-clause" (fun v a => v.text? anchors = some a) f.clause?
  priority : FieldRead anchors entries "priority" (fun v a => v.number? anchors = some a)
    f.priority?
  description : FieldRead anchors entries "description" (fun v a => v.text? anchors = some a)
    f.description?

theorem givesIn_readRuleField {f : RuleFields} {entries : List (Node × Node)}
    (h : f.ReadFrom scope.anchors entries) (entry : Node × Node) :
    (f.read entry).GivesIn scope (RuleFields.ReadFrom scope.anchors (entries ++ [entry])) := by
  refine givesIn_asText.bind fun name hname => ?_
  dsimp only
  split
  · exact (h.link.set hname givesIn_asText).bind fun _ hlink => givesIn_pure
      ⟨hlink, h.clause.other hname (by decide), h.priority.other hname (by decide),
        h.description.other hname (by decide)⟩
  · exact (h.clause.set hname givesIn_asText).bind fun _ hclause => givesIn_pure
      ⟨h.link.other hname (by decide), hclause, h.priority.other hname (by decide),
        h.description.other hname (by decide)⟩
  · exact (h.priority.set hname givesIn_asInt32).bind fun _ hpriority => givesIn_pure
      ⟨h.link.other hname (by decide), h.clause.other hname (by decide), hpriority,
        h.description.other hname (by decide)⟩
  · exact (h.description.set hname givesIn_asText).bind fun _ hdescription => givesIn_pure
      ⟨h.link.other hname (by decide), h.clause.other hname (by decide),
        h.priority.other hname (by decide), hdescription⟩
  · rename_i hlink hclause hpriority hdescription
    exact (givesIn_true _).bind fun _ _ => givesIn_pure
      ⟨h.link.other hname hlink, h.clause.other hname hclause,
        h.priority.other hname hpriority, h.description.other hname hdescription⟩

theorem givesIn_decodeRule (n : Node) :
    (RuleEntry.decode n).GivesIn scope fun r => n.configuredRule? scope.anchors = some r := by
  refine givesIn_asMapping.bind fun entries hentries => ?_
  refine GivesIn.bind (GivesIn.foldlM (Q := RuleFields.ReadFrom scope.anchors)
    ⟨.nil, .nil, .nil, .nil⟩ fun _ f entry h => givesIn_readRuleField h entry) fun f hf => ?_
  cases hlink : f.link? with
  | none => exact givesIn_throw _
  | some link =>
    refine givesIn_pure ?_
    rw [Node.configuredRule?, hentries]
    simp [hf.link.fieldOr_eq, hf.clause.fieldOr_eq, hf.priority.fieldOr_eq,
      hf.description.fieldOr_eq, hlink]

/-! ## Rules of a domain -/

theorem mapM_concat {α β : Type} {f : α → Option β} {l : List α} {l' : List β} {a : α} {b : β}
    (hl : l.mapM f = some l') (ha : f a = some b) : (l ++ [a]).mapM f = some (l' ++ [b]) := by
  simp [List.mapM_append, hl, ha]

/-- These are the rules that are listed, and no id is repeated. -/
def ListsRules (listing? : Option (List (String × RuleEntry)))
    (rules : List (String × RuleEntry)) : Prop :=
  listing? = some rules ∧ RulesDistinct rules

theorem any_id_iff {rules : List (String × RuleEntry)} {id : String} :
    rules.any (·.1 == id) = true ↔ id ∈ rules.map Prod.fst := by
  simp [List.any_eq_true]

theorem rulesDistinct_concat_iff {rules : List (String × RuleEntry)} {entry : String × RuleEntry} :
    RulesDistinct (rules ++ [entry]) ↔ RulesDistinct rules ∧ entry.1 ∉ rules.map Prod.fst := by
  unfold RulesDistinct
  rw [List.map_append, List.nodup_append]
  constructor
  · intro h
    obtain ⟨hrules, -, hnew⟩ := h
    exact ⟨hrules, fun hmem => hnew _ hmem _ List.mem_cons_self rfl⟩
  · intro h
    obtain ⟨hrules, hnew⟩ := h
    refine ⟨hrules, List.pairwise_singleton _ _, fun id hid id' hid' heq => hnew ?_⟩
    obtain rfl := List.mem_singleton.1 hid'
    exact heq ▸ hid

theorem givesIn_addRule {rules : List (String × RuleEntry)} {entries : List (Node × Node)}
    (h : ListsRules (entries.mapM
      (Node.listed? scope.anchors (Node.configuredRule? scope.anchors))) rules)
    (entry : Node × Node) :
    (addRule rules entry).GivesIn scope (ListsRules ((entries ++ [entry]).mapM
      (Node.listed? scope.anchors (Node.configuredRule? scope.anchors)))) := by
  refine givesIn_asText.bind fun id hid => (givesIn_decodeRule _).bind fun rule hrule => ?_
  by_cases hseen : rules.any (·.1 == id) = true
  · rw [if_pos hseen]
    exact givesIn_throw_bind _
  · rw [if_neg hseen]
    exact givesIn_pure ⟨mapM_concat h.1 (by simp [Node.listed?, hid, hrule]),
      rulesDistinct_concat_iff.2 ⟨h.2, mt any_id_iff.2 hseen⟩⟩

theorem givesIn_decodeRules (n : Node) : (decodeRules n).GivesIn scope
    (ListsRules (n.listing? scope.anchors (Node.configuredRule? scope.anchors))) := by
  refine givesIn_asMapping.bind fun entries hentries => ?_
  unfold Node.listing?
  rw [hentries]
  exact GivesIn.foldlM (Q := fun taken => ListsRules (taken.mapM
      (Node.listed? scope.anchors (Node.configuredRule? scope.anchors))))
    ⟨rfl, List.nodup_nil⟩ fun _ rules entry h => givesIn_addRule h entry

/-! ## Domains -/

/-- The fields are those of the entries that have been read. -/
structure DomainFields.ReadFrom (anchors : List (Nat × Node)) (entries : List (Node × Node))
    (f : DomainFields) : Prop where
  enabled : FieldRead anchors entries "enabled" (fun v a => v.flag? anchors = some a) f.enabled?
  defaultBackend : FieldRead anchors entries "default-backend-name"
    (fun v a => v.text? anchors = some a) f.defaultBackend?
  rules : FieldRead anchors entries "backend-rules"
    (fun v => ListsRules (v.listing? anchors (Node.configuredRule? anchors))) f.rules?

theorem givesIn_readDomainField {f : DomainFields} {entries : List (Node × Node)}
    (h : f.ReadFrom scope.anchors entries) (entry : Node × Node) :
    (f.read entry).GivesIn scope (DomainFields.ReadFrom scope.anchors (entries ++ [entry])) := by
  refine givesIn_asText.bind fun name hname => ?_
  dsimp only
  split
  · exact (h.enabled.set hname givesIn_asFlag).bind fun _ henabled => givesIn_pure
      ⟨henabled, h.defaultBackend.other hname (by decide), h.rules.other hname (by decide)⟩
  · exact (h.defaultBackend.set hname givesIn_asText).bind fun _ hbackend => givesIn_pure
      ⟨h.enabled.other hname (by decide), hbackend, h.rules.other hname (by decide)⟩
  · exact (h.rules.set hname (givesIn_decodeRules _)).bind fun _ hrules => givesIn_pure
      ⟨h.enabled.other hname (by decide), h.defaultBackend.other hname (by decide), hrules⟩
  · rename_i henabled hbackend hrules
    exact (givesIn_true _).bind fun _ _ => givesIn_pure
      ⟨h.enabled.other hname henabled, h.defaultBackend.other hname hbackend,
        h.rules.other hname hrules⟩

theorem givesIn_decodeDomain (n : Node) : (DomainEntry.decode n).GivesIn scope fun d =>
    n.configuredDomain? scope.anchors = some d ∧ RulesDistinct d.rules := by
  refine givesIn_asMapping.bind fun entries hentries => ?_
  refine GivesIn.bind (GivesIn.foldlM (Q := DomainFields.ReadFrom scope.anchors) ⟨.nil, .nil, .nil⟩
    fun _ f entry h => givesIn_readDomainField h entry) fun f hf => givesIn_pure ⟨?_, ?_⟩
  · have hrules := hf.rules.mono fun _ _ h => h.1
    rw [Node.configuredDomain?, hentries]
    simp [hf.enabled.fieldOr_eq, hf.defaultBackend.fieldOr_eq, hrules.fieldOr_eq,
      DomainEntry.unset]
  · cases hrules : f.rules? with
    | none => exact List.nodup_nil
    | some rules =>
      obtain ⟨_, -, hids⟩ := hf.rules.exists_of_mem hrules
      exact hids

/-- The directory has the domains that are listed, and each of these, also one that is replaced
by a later one, has rules with different ids. -/
def Lists (listing? : Option (List (String × DomainEntry))) (domains : Directory DomainEntry) :
    Prop :=
  ∃ listing, listing? = some listing ∧ domains = .ofList listing ∧
    ∀ entry ∈ listing, RulesDistinct entry.2.rules

theorem givesIn_addDomain {domains : Directory DomainEntry} {entries : List (Node × Node)}
    (h : Lists (entries.mapM
      (Node.listed? scope.anchors (Node.configuredDomain? scope.anchors))) domains)
    (entry : Node × Node) :
    (addDomain domains entry).GivesIn scope (Lists ((entries ++ [entry]).mapM
      (Node.listed? scope.anchors (Node.configuredDomain? scope.anchors)))) := by
  obtain ⟨listing, hlisting, rfl, hids⟩ := h
  refine givesIn_asText.bind fun name hname => ?_
  refine (givesIn_decodeDomain _).bind fun d hd => ?_
  have hlisted : Node.listed? scope.anchors (Node.configuredDomain? scope.anchors) entry =
      some (name, d) := by simp [Node.listed?, hname, hd.1]
  refine givesIn_pure ⟨listing ++ [(name, d)], mapM_concat hlisting hlisted, ?_,
    List.forall_mem_append.2 ⟨hids, List.forall_mem_singleton.2 hd.2⟩⟩
  simp [Directory.ofList]

theorem givesIn_decodeDomains (n : Node) : (decodeDomains n).GivesIn scope
    (Lists (n.listing? scope.anchors (Node.configuredDomain? scope.anchors))) := by
  refine givesIn_asMapping.bind fun entries hentries => ?_
  unfold Node.listing?
  rw [hentries]
  exact GivesIn.foldlM (Q := fun taken => Lists (taken.mapM
      (Node.listed? scope.anchors (Node.configuredDomain? scope.anchors))))
    ⟨[], rfl, rfl, by simp⟩ fun _ domains entry h => givesIn_addDomain h entry

/-! ## Whole documents -/

theorem givesIn_readField {domains? : Option (Directory DomainEntry)} {entries : List (Node × Node)}
    (h : FieldRead scope.anchors entries "domains"
      (fun v => Lists (v.listing? scope.anchors (Node.configuredDomain? scope.anchors))) domains?)
    (entry : Node × Node) :
    (readField domains? entry).GivesIn scope (FieldRead scope.anchors (entries ++ [entry]) "domains"
      fun v => Lists (v.listing? scope.anchors (Node.configuredDomain? scope.anchors))) := by
  refine givesIn_asText.bind fun name hname => ?_
  split
  · exact h.set hname (givesIn_decodeDomains _)
  · rename_i hdomains
    exact (givesIn_true _).bind fun _ _ => givesIn_pure (h.other hname hdomains)

theorem givesIn_decode (n : Node) : (decode n).GivesIn scope fun c =>
    Lists ((n.entries? scope.anchors).bind (Node.fieldOr scope.anchors "domains"
      (Node.listing? scope.anchors (Node.configuredDomain? scope.anchors)) (some [])))
      c.domains := by
  refine givesIn_asMapping.bind fun entries hentries => ?_
  refine GivesIn.bind (GivesIn.foldlM (Q := fun taken => FieldRead scope.anchors taken "domains"
      fun v => Lists (v.listing? scope.anchors (Node.configuredDomain? scope.anchors)))
    .nil fun _ domains? entry h => givesIn_readField h entry) fun domains? h => givesIn_pure ?_
  rw [hentries, Option.bind_some]
  unfold Node.fieldOr
  rcases h.cases_field with ⟨hfield, rfl⟩ | ⟨v, domains, hfield, rfl, hlists⟩
  · rw [hfield]
    exact ⟨[], rfl, rfl, by simp⟩
  · rw [hfield]
    exact hlists

theorem lists_of_ofDocument {document : Yaml.Document} {c : Config}
    (h : ofDocument document = .ok c) : Lists document.domains? c.domains :=
  GivesIn.of_run (P := fun c => Lists _ c.domains) (givesIn_decode _) (run_decode_of_ofDocument h)

/-- Reading a document tells the rules of each domain apart. -/
theorem idsDistinct_of_ofDocument {document : Yaml.Document} {c : Config}
    (h : ofDocument document = .ok c) : c.IdsDistinct := by
  obtain ⟨listing, -, hdomains, hids⟩ := lists_of_ofDocument h
  intro entry hentry
  rw [hdomains] at hentry
  exact hids entry (Directory.mem_of_mem_ofList hentry)

/-- **What is kept of a document.** When a document is read, the rules of each domain that it lists
have different ids, and a domain of the configuration is the last one listed under its name, with
all its rules in their order. So a rule that is listed is there, unless its domain is listed again
and the last one of that name lacks it. -/
theorem last_domain_is_kept (document : Yaml.Document) (c : Config)
    (h : ofDocument document = .ok c) :
    ∃ listing, document.domains? = some listing ∧
      (∀ entry ∈ listing, RulesDistinct entry.2.rules) ∧
      (∀ name, c.domains.get? name = listing.reverse.lookup name) ∧
      ∀ before name d after, listing = before ++ (name, d) :: after → ∀ rule ∈ d.rules,
        (∃ d', c.domains.get? name = some d' ∧ rule ∈ d'.rules) ↔
          ∀ last, after.reverse.lookup name = some last → rule ∈ last.rules := by
  obtain ⟨listing, hlisting, hdomains, hids⟩ := lists_of_ofDocument h
  have hget (name : String) : c.domains.get? name = listing.reverse.lookup name := by
    rw [hdomains, Directory.get?_ofList]
  refine ⟨listing, hlisting, hids, hget, fun before name d after hcut rule hrule => ?_⟩
  have hlookup : c.domains.get? name = (after.reverse.lookup name).or (some d) := by
    rw [hget, hcut, List.reverse_append, List.reverse_cons, List.append_assoc, List.lookup_append,
      List.singleton_append, List.lookup_cons_self]
  rw [hlookup]
  cases after.reverse.lookup name with
  | none => simp [hrule]
  | some last => simp

/-- Two domains of one name, and a rule in the first of them only. -/
def laneTwice : String :=
  "domains:\n lane:\n  backend-rules:\n   a:\n    link-name: A\n lane:\n  default-backend-name: E\n"

theorem ofText_laneTwice : ofText laneTwice = .ok ⟨.ofList [("lane", ⟨true, "E", []⟩)]⟩ := by
  decide +kernel

theorem domains?_laneTwice : (Yaml.Document.ofText laneTwice).domains? = some
    [("lane", ⟨true, "", [("a", ⟨"A", "", 0, ""⟩)]⟩), ("lane", ⟨true, "E", []⟩)] := by
  decide +kernel

/-- Under the name there is just what the later one says. -/
theorem keeps_later_lane :
    ∃ c listing, ofText laneTwice = .ok c ∧
      (Yaml.Document.ofText laneTwice).domains? = some listing ∧
      listing.map Prod.fst = ["lane", "lane"] ∧
      c.domains.get? "lane" = some ⟨true, "E", []⟩ := by
  obtain ⟨listing, hlisting, -, hget, -⟩ := last_domain_is_kept (.ofText laneTwice) _ ofText_laneTwice
  obtain rfl := Option.some.inj (hlisting.symm.trans domains?_laneTwice)
  exact ⟨_, _, ofText_laneTwice, domains?_laneTwice, rfl, hget "lane"⟩

/-- **Counterexample.** A rule can be lost without a fault: it is listed, the document is read, and
the domain of that name does not have the rule. -/
theorem repeated_domain_loses_rule :
    ∃ c listing d, ofText laneTwice = .ok c ∧
      (Yaml.Document.ofText laneTwice).domains? = some listing ∧ ("lane", d) ∈ listing ∧
      ("a", ⟨"A", "", 0, ""⟩) ∈ d.rules ∧
      c.domains.get? "lane" = some ⟨true, "E", []⟩ ∧
      ¬ ∀ text c listing, ofText text = .ok c →
        (Yaml.Document.ofText text).domains? = some listing → ∀ name d, (name, d) ∈ listing →
          ∀ rule ∈ d.rules, ∃ d', c.domains.get? name = some d' ∧ rule ∈ d'.rules := by
  refine ⟨_, _, _, ofText_laneTwice, domains?_laneTwice, List.mem_cons_self, List.mem_cons_self,
    rfl, fun h => ?_⟩
  obtain ⟨d', hd', hrule⟩ := h _ _ _ ofText_laneTwice domains?_laneTwice "lane" _
    List.mem_cons_self _ List.mem_cons_self
  obtain rfl := Option.some.inj hd'
  cases hrule

end Config
end BackendRouting
