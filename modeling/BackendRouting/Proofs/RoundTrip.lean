import BackendRouting.Proofs.Listing
import Mathlib.Data.List.Induction

/-!
# Configurations that are read back

A configuration is read back from its tree as it is, if in each domain all ids are different. Else
the first entry with the id of an entry before it is reported.

* `Yaml.int32?_toString`: a printed number is read as the number it is.
* `FirstRepeated`: the first entry with the id of an entry before it, told by its place.
* `decodeRules_of_distinct`, `decodeRules_of_repeated`: the listing is kept whole and in order, or
  the repeated id is reported.
* `decodeRules_of_prefix`: what stands behind the repeated id is not looked at.
* `ofNode_encode_of_distinct`, `ofNode_encode_of_repeated`: the same for whole configurations.
* `read_back_iff_ids_distinct`: both together.
-/
namespace BackendRouting

/-! ## Printed numbers -/

namespace Yaml

theorem digit?_of_isDigit {c : Char} (h : c.isDigit = true) :
    digit? c = some (c.toNat - '0'.toNat) := by
  rw [digit?, if_pos h]

theorem appendDigit?_of_isDigit {c : Char} (h : c.isDigit = true) (n : Nat) :
    appendDigit? 10 n c = some (10 * n + (c.toNat - '0'.toNat)) := by
  have hlt : c.toNat - '0'.toNat < 10 := by
    have hle : c.toNat ≤ '9'.toNat := (Char.isDigit_iff_toNat.1 h).2
    have hnine : '9'.toNat = '0'.toNat + 9 := rfl
    omega
  rw [appendDigit?, digit?_of_isDigit h, Option.bind_some, if_pos hlt]

theorem foldlM_appendDigit? {cs : List Char} (h : ∀ c ∈ cs, c.isDigit = true) (n : Nat) :
    cs.foldlM (appendDigit? 10) n = some (Nat.ofDigitChars 10 cs n) := by
  induction cs generalizing n with
  | nil => rfl
  | cons c cs ih =>
    obtain ⟨hc, hcs⟩ := List.forall_mem_cons.1 h
    rw [List.foldlM_cons, appendDigit?_of_isDigit hc, Nat.ofDigitChars_cons]
    exact ih hcs _

theorem natural?_toDigits (n : Nat) : natural? 10 (Nat.toDigits 10 n) = some n := by
  have hdigits : ∀ c ∈ Nat.toDigits 10 n, c.isDigit = true := fun c hc =>
    Nat.isDigit_of_mem_toDigits (by decide) (by decide) hc
  rw [natural?, if_neg Nat.toDigits_ne_nil, foldlM_appendDigit? hdigits,
    Nat.ofDigitChars_toDigits (by decide) (by decide)]

theorem head?_toDigits_ne {n : Nat} (h : 0 < n) : (Nat.toDigits 10 n).head? ≠ some '0' := by
  induction n using Nat.strongRecOn with
  | ind n ih =>
    rw [Nat.toDigits_eq_if (by decide)]
    split
    · rename_i hlt
      have hdigit : ∀ n < 10, 0 < n → [Nat.digitChar n].head? ≠ some '0' := by decide
      exact hdigit n hlt h
    · rename_i hge
      rw [List.head?_append, Option.or_of_isSome (List.isSome_head?.2 Nat.toDigits_ne_nil)]
      exact ih (n / 10) (by omega) (by omega)

/-- Without a zero in front there is no sign of a base. -/
theorem magnitude?_of_head?_ne {cs : List Char} (h : cs.head? ≠ some '0') :
    magnitude? cs = natural? 10 cs := by
  unfold magnitude?
  split
  · exact absurd rfl h
  · exact absurd rfl h
  · exact absurd rfl h
  · exact absurd rfl h
  · rfl

theorem magnitude?_toDigits (n : Nat) : magnitude? (Nat.toDigits 10 n) = some n := by
  rcases Nat.eq_zero_or_pos n with rfl | hpos
  · rfl
  · rw [magnitude?_of_head?_ne (head?_toDigits_ne hpos), natural?_toDigits]

theorem integer?_toDigits (n : Nat) : integer? (Nat.toDigits 10 n) = some (n : Int) := by
  have hsign : ∀ c cs, Nat.toDigits 10 n = c :: cs → c.isDigit = true := fun c cs hcs =>
    Nat.isDigit_of_mem_toDigits (by decide) (by decide) (hcs ▸ List.mem_cons_self)
  unfold integer?
  split
  · rename_i hcs
    exact absurd (hsign _ _ hcs) (by decide)
  · rename_i hcs
    exact absurd (hsign _ _ hcs) (by decide)
  · rw [magnitude?_toDigits]
    rfl

theorem integer?_neg_toDigits (n : Nat) :
    integer? ('-' :: Nat.toDigits 10 n) = some (-(n : Int)) := by
  rw [integer?, magnitude?_toDigits]
  rfl

theorem integer?_toString (z : Int) : integer? (toString z).toList = some z := by
  rw [Int.toString_eq_repr, Int.repr_eq_if]
  split
  · rename_i hpos
    rw [Nat.toList_repr, integer?_toDigits, Int.toNat_of_nonneg hpos]
  · rename_i hneg
    have hminus : ("-" ++ (-z).toNat.repr).toList = '-' :: Nat.toDigits 10 (-z).toNat := by
      rw [String.toList_append, Nat.toList_repr]
      rfl
    rw [hminus, integer?_neg_toDigits, Int.toNat_of_nonneg (by omega), Int.neg_neg]

theorem int32?_toString (n : Int32) : int32? (toString n.toInt) = some n := by
  rw [int32?, integer?_toString, Option.bind_some,
    if_pos ⟨n.minValue_le_toInt, n.toInt_le⟩, Int32.ofInt_toInt]

end Yaml

namespace Config

open Yaml (Node)

/-! ## Ids that repeat -/

/-- The first entry with the id of an entry before it has this id. -/
def FirstRepeated (rules : List (String × RuleEntry)) (id : String) : Prop :=
  ∃ before rule after, rules = before ++ (id, rule) :: after ∧ RulesDistinct before ∧
    id ∈ before.map Prod.fst

theorem not_rulesDistinct_iff {rules : List (String × RuleEntry)} :
    ¬ RulesDistinct rules ↔ ∃ id, FirstRepeated rules id := by
  constructor
  · -- from behind: either the last entry is the first to repeat an id, or one before it is
    induction rules using List.reverseRecOn with
    | nil => exact fun h => absurd List.nodup_nil h
    | append_singleton rules entry ih =>
      intro h
      by_cases hrules : RulesDistinct rules
      · refine ⟨entry.1, rules, entry.2, [], rfl, hrules, ?_⟩
        by_contra hnew
        exact h (rulesDistinct_concat_iff.2 ⟨hrules, hnew⟩)
      · obtain ⟨id, before, rule, after, rfl, hbefore, hid⟩ := ih hrules
        exact ⟨id, before, rule, after ++ [entry], by simp, hbefore, hid⟩
  · intro h hrules
    obtain ⟨id, before, rule, after, rfl, -, hid⟩ := h
    rw [List.append_cons] at hrules
    exact (rulesDistinct_concat_iff.1 hrules.of_append).2 hid

/-! ## Listings of rules -/

/-- Read an entry of a listing by itself: its id, then its rule. -/
def readRule (entry : Node × Node) : Decoder (String × RuleEntry) := do
  let id ← entry.1.asText
  let rule ← RuleEntry.decode entry.2
  return (id, rule)

/-- Put an entry behind the others if its id is new. -/
def keepRule (rules : List (String × RuleEntry)) (entry : String × RuleEntry) :
    Decoder (List (String × RuleEntry)) :=
  if entry.1 ∈ rules.map Prod.fst then throw (.duplicateRule entry.1)
  else pure (rules ++ [entry])

theorem addRule_eq (rules : List (String × RuleEntry)) (entry : Node × Node) :
    addRule rules entry = readRule entry >>= keepRule rules := by
  unfold addRule readRule keepRule
  simp only [bind_assoc, pure_bind]
  refine bind_congr fun id => bind_congr fun rule => ?_
  by_cases hid : id ∈ rules.map Prod.fst
  · rw [if_pos hid, if_pos (any_id_iff.2 hid)]
    rfl
  · rw [if_neg hid, if_neg (mt any_id_iff.1 hid)]

section

variable {scope : Scope} {followed followed' : Nat} {rules listing : List (String × RuleEntry)}
  {entries : List (Node × Node)} {id : String}

/-- While ids are new all entries are put behind the others. The induction is on the entries that
are left, for any rules that have been kept. -/
theorem foldlM_addRule (hread : (entries.mapM readRule).Gives scope followed listing followed')
    (hrules : RulesDistinct (rules ++ listing)) :
    (entries.foldlM addRule rules).Gives scope followed (rules ++ listing) followed' := by
  induction entries generalizing rules followed listing with
  | nil =>
    rw [List.mapM_nil] at hread
    obtain ⟨rfl, rfl⟩ := Decoder.gives_pure_iff.1 hread
    rw [List.append_nil]
    exact Decoder.gives_pure
  | cons entry entries ih =>
    rw [List.mapM_cons] at hread
    obtain ⟨rule, _, hrule, hread⟩ := Decoder.gives_bind_iff.1 hread
    obtain ⟨rest, _, hrest, hread⟩ := Decoder.gives_bind_iff.1 hread
    obtain ⟨rfl, rfl⟩ := Decoder.gives_pure_iff.1 hread
    rw [List.append_cons] at hrules ⊢
    have hnew : rule.1 ∉ rules.map Prod.fst := (rulesDistinct_concat_iff.1 hrules.of_append).2
    rw [List.foldlM_cons, addRule_eq, bind_assoc]
    refine hrule.bind ?_
    rw [keepRule, if_neg hnew, pure_bind]
    exact ih hrest hrules

/-- An entry of the listing comes from an entry of the mapping, which is read when all before it
have been read. -/
theorem exists_of_mapM_readRule {before after : List (String × RuleEntry)}
    {rule : String × RuleEntry} (hread : (entries.mapM readRule).Gives scope followed
      (before ++ rule :: after) followed') :
    ∃ former entry later followed₁ followed₂, entries = former ++ entry :: later ∧
      (former.mapM readRule).Gives scope followed before followed₁ ∧
      (readRule entry).Gives scope followed₁ rule followed₂ := by
  induction entries generalizing before followed with
  | nil =>
    rw [List.mapM_nil] at hread
    obtain ⟨hnil, -⟩ := Decoder.gives_pure_iff.1 hread
    exact absurd hnil.symm (List.append_ne_nil_of_right_ne_nil _ (List.cons_ne_nil _ _))
  | cons entry entries ih =>
    rw [List.mapM_cons] at hread
    obtain ⟨first, followed₁, hfirst, hread⟩ := Decoder.gives_bind_iff.1 hread
    obtain ⟨rest, followed₂, hrest, hread⟩ := Decoder.gives_bind_iff.1 hread
    obtain ⟨hlisting, rfl⟩ := Decoder.gives_pure_iff.1 hread
    cases before with
    | nil =>
      obtain ⟨rfl, rfl⟩ := List.cons.inj hlisting
      exact ⟨[], entry, entries, followed, followed₁, rfl, Decoder.gives_pure, hfirst⟩
    | cons first' before =>
      obtain ⟨rfl, rfl⟩ := List.cons.inj hlisting
      obtain ⟨former, entry', later, followed₃, followed₄, rfl, hformer, hentry⟩ := ih hrest
      refine ⟨entry :: former, entry', later, followed₃, followed₄, rfl, ?_, hentry⟩
      rw [List.mapM_cons]
      exact hfirst.bind (hformer.bind Decoder.gives_pure)

theorem decodeRules_of_distinct
    (hread : (entries.mapM readRule).Gives scope followed listing followed')
    (hlisting : RulesDistinct listing) :
    (decodeRules (.mapping entries)).Gives scope followed listing followed' :=
  foldlM_addRule hread hlisting

/-- Entries that stand behind the first one with a repeated id need not be well formed. -/
theorem decodeRules_of_prefix {former later : List (Node × Node)} {entry : Node × Node}
    {before : List (String × RuleEntry)} {rule : RuleEntry} {followed₁ followed₂ : Nat}
    (hformer : (former.mapM readRule).Gives scope followed before followed₁)
    (hentry : (readRule entry).Gives scope followed₁ (id, rule) followed₂)
    (hbefore : RulesDistinct before) (hid : id ∈ before.map Prod.fst) :
    (decodeRules (.mapping (former ++ entry :: later))).Fails scope followed
      (.duplicateRule id) := by
  have hfirst : (addRule before entry).Fails scope followed₁ (.duplicateRule id) := by
    rw [addRule_eq]
    refine hentry.bind_fails ?_
    rw [keepRule, if_pos hid]
    exact Decoder.fails_throw
  show ((former ++ entry :: later).foldlM addRule []).Fails scope followed (.duplicateRule id)
  rw [List.foldlM_append]
  have hgives : (former.foldlM addRule []).Gives scope followed before followed₁ :=
    foldlM_addRule hformer hbefore
  refine hgives.bind_fails ?_
  rw [List.foldlM_cons]
  exact hfirst.bind

theorem decodeRules_of_repeated
    (hread : (entries.mapM readRule).Gives scope followed listing followed')
    (hlisting : FirstRepeated listing id) :
    (decodeRules (.mapping entries)).Fails scope followed (.duplicateRule id) := by
  obtain ⟨before, rule, after, rfl, hbefore, hid⟩ := hlisting
  obtain ⟨former, entry, later, _, _, rfl, hformer, hentry⟩ := exists_of_mapM_readRule hread
  exact decodeRules_of_prefix hformer hentry hbefore hid

end

/-! ## Trees of rule entries -/

@[simp] theorem asText_quoted (text : String) : (Node.quoted text).asText = pure text := rfl

@[simp] theorem asMapping_mapping (entries : List (Node × Node)) :
    (Node.mapping entries).asMapping = pure entries := rfl

@[simp] theorem asFlag_plain (flag : Bool) :
    (Node.plain (if flag then "true" else "false")).asFlag = pure flag := by
  cases flag <;> rfl

theorem asWord_plain (tag text : String) : (Node.plain text).asWord tag = pure text := rfl

theorem asInt32_plain (n : Int32) : (Node.plain (toString n.toInt)).asInt32 = pure n := by
  rw [Node.asInt32, asWord_plain, pure_bind, Yaml.int32?_toString]

theorem decode_encodeRule (r : RuleEntry) : RuleEntry.decode r.encode = pure r := by
  have hpriority := asInt32_plain r.priority
  unfold RuleEntry.decode RuleEntry.encode
  -- the printed number is hidden, for simp would rewrite it
  generalize Node.plain (toString r.priority.toInt) = node at hpriority ⊢
  simp [RuleFields.read, setOnce, hpriority]

theorem readRule_encode (rule : String × RuleEntry) :
    readRule (.quoted rule.1, rule.2.encode) = pure rule := by
  rw [readRule, asText_quoted, decode_encodeRule]
  rfl

theorem gives_encodeRules (rules : List (String × RuleEntry)) {scope : Scope} {followed : Nat} :
    ((rules.map fun (id, rule) => (Node.quoted id, rule.encode)).mapM readRule).Gives scope followed
      rules followed := by
  induction rules with
  | nil =>
    rw [List.map_nil, List.mapM_nil]
    exact Decoder.gives_pure
  | cons rule rules ih =>
    rw [List.map_cons, List.mapM_cons, readRule_encode, pure_bind]
    exact ih.bind Decoder.gives_pure

/-! ## Trees of configurations -/

section

variable {rules : List (String × RuleEntry)} {d : DomainEntry} {c : Config} {id : String}

theorem decode_encodeRules_of_distinct (h : RulesDistinct rules) :
    decodeRules (encodeRules rules) = pure rules := by
  funext scope followed
  exact decodeRules_of_distinct (gives_encodeRules rules) h

theorem decode_encodeRules_of_repeated (h : FirstRepeated rules id) :
    decodeRules (encodeRules rules) = throw (.duplicateRule id) := by
  funext scope followed
  exact decodeRules_of_repeated (gives_encodeRules rules) h

theorem decode_encodeDomain_of_distinct (h : RulesDistinct d.rules) :
    DomainEntry.decode d.encode = pure d := by
  have hrules := decode_encodeRules_of_distinct h
  unfold DomainEntry.decode DomainEntry.encode
  simp [DomainFields.read, setOnce, hrules]

theorem decode_encodeDomain_of_repeated (h : FirstRepeated d.rules id) :
    DomainEntry.decode d.encode = throw (.duplicateRule id) := by
  have hrules := decode_encodeRules_of_repeated h
  unfold DomainEntry.decode DomainEntry.encode
  simp [DomainFields.read, setOnce, hrules]

theorem addDomain_encode_of_distinct (domains : Directory DomainEntry) {name : String}
    (h : RulesDistinct d.rules) :
    addDomain domains (.quoted name, d.encode) = pure (domains.insert name d) := by
  rw [addDomain, asText_quoted, decode_encodeDomain_of_distinct h]
  rfl

theorem addDomain_encode_of_repeated (domains : Directory DomainEntry) {name : String}
    (h : FirstRepeated d.rules id) :
    addDomain domains (.quoted name, d.encode) = throw (.duplicateRule id) := by
  rw [addDomain, asText_quoted, decode_encodeDomain_of_repeated h]
  rfl

theorem foldlM_addDomain_encode {entries : List (String × DomainEntry)}
    (h : ∀ entry ∈ entries, RulesDistinct entry.2.rules) (domains : Directory DomainEntry) :
    (entries.map fun (name, domain) => (Node.quoted name, domain.encode)).foldlM addDomain domains =
      pure (entries.foldl (fun d (name, value) => d.insert name value) domains) := by
  induction entries generalizing domains with
  | nil => rfl
  | cons entry entries ih =>
    obtain ⟨hentry, hentries⟩ := List.forall_mem_cons.1 h
    rw [List.map_cons, List.foldlM_cons, addDomain_encode_of_distinct domains hentry, pure_bind,
      ih hentries, List.foldl_cons]

/-- The first domain, by name, in which an id repeats has this id as the first to repeat. -/
def FirstRepeatedIn (domains : Directory DomainEntry) (id : String) : Prop :=
  ∃ before name d after, domains.entries = before ++ (name, d) :: after ∧
    (∀ entry ∈ before, RulesDistinct entry.2.rules) ∧ FirstRepeated d.rules id

theorem decode_encodeDomains_of_distinct {domains : Directory DomainEntry}
    (h : DomainsDistinct domains) : decodeDomains (encodeDomains domains) = pure domains := by
  unfold decodeDomains encodeDomains
  rw [asMapping_mapping, pure_bind, foldlM_addDomain_encode h]
  exact congrArg pure domains.ofList_entries

theorem decode_encodeDomains_of_repeated {domains : Directory DomainEntry}
    (h : FirstRepeatedIn domains id) :
    decodeDomains (encodeDomains domains) = throw (.duplicateRule id) := by
  obtain ⟨before, name, d, after, hcut, hbefore, hd⟩ := h
  unfold decodeDomains encodeDomains
  rw [asMapping_mapping, pure_bind, hcut, List.map_append, List.foldlM_append,
    foldlM_addDomain_encode hbefore, pure_bind, List.map_cons, List.foldlM_cons,
    addDomain_encode_of_repeated _ hd]
  rfl

theorem not_domainsDistinct_iff {domains : Directory DomainEntry} :
    ¬ DomainsDistinct domains ↔ ∃ id, FirstRepeatedIn domains id := by
  constructor
  · intro h
    classical
    obtain ⟨entry, hmem, hrepeats⟩ :
        ∃ entry ∈ domains.entries, ¬ RulesDistinct entry.2.rules := by
      simpa [DomainsDistinct] using h
    -- what is reported is an id of the first such domain, so this one is searched for
    have hsome : (domains.entries.find? fun d => decide (¬ RulesDistinct d.2.rules)).isSome :=
      List.find?_isSome.2 ⟨entry, hmem, decide_eq_true hrepeats⟩
    obtain ⟨first, hfirst⟩ := Option.isSome_iff_exists.1 hsome
    obtain ⟨hrepeats, before, after, hcut, hbefore⟩ := List.find?_eq_some_iff_append.1 hfirst
    obtain ⟨id, hid⟩ := not_rulesDistinct_iff.1 (of_decide_eq_true hrepeats)
    exact ⟨id, before, first.1, first.2, after, hcut, by simpa using hbefore, hid⟩
  · intro h hdomains
    obtain ⟨id, before, name, d, after, hcut, -, hd⟩ := h
    have hmem : (name, d) ∈ domains.entries := hcut ▸ List.mem_append_right _ List.mem_cons_self
    exact not_rulesDistinct_iff.2 ⟨id, hd⟩ (hdomains _ hmem)

theorem ofNode_encode_of_distinct (h : c.IdsDistinct) : ofNode c.encode = .ok c := by
  have hdomains := decode_encodeDomains_of_distinct h
  have hdecode : decode c.encode = pure c := by
    unfold decode encode
    simp [readField, setOnce, hdomains]
  rw [ofNode, ofDocument, Decoder.run, Yaml.Document.ofNode, hdecode]
  rfl

theorem ofNode_encode_of_repeated (h : FirstRepeatedIn c.domains id) :
    ofNode c.encode = .error (.duplicateRule id) := by
  have hdomains := decode_encodeDomains_of_repeated h
  have hdecode : decode c.encode = throw (.duplicateRule id) := by
    unfold decode encode
    simp [readField, setOnce, hdomains]
  rw [ofNode, ofDocument, Decoder.run, Yaml.Document.ofNode, hdecode]
  rfl

end

/-- What is written is read back as it was exactly if in each domain the ids are different, and
else the first id that repeats is reported. The reader of the rules of a domain takes well-formed
entries, which may leave out fields or have further ones, exactly if their ids are different, in
their order, and else reports the first id that repeats. -/
theorem read_back_iff_ids_distinct :
    (∀ c : Config,
      (ofNode c.encode = .ok c ↔ c.IdsDistinct) ∧
      (¬ c.IdsDistinct ↔ ∃ id, FirstRepeatedIn c.domains id) ∧
      ∀ id, FirstRepeatedIn c.domains id → ofNode c.encode = .error (.duplicateRule id)) ∧
    ∀ (scope : Scope) (followed followed' : Nat) (entries : List (Node × Node))
      (listing : List (String × RuleEntry)),
      (entries.mapM readRule).Gives scope followed listing followed' →
      ((∃ rules followed'',
          (decodeRules (.mapping entries)).Gives scope followed rules followed'') ↔
        RulesDistinct listing) ∧
      (RulesDistinct listing →
        (decodeRules (.mapping entries)).Gives scope followed listing followed') ∧
      (¬ RulesDistinct listing ↔ ∃ id, FirstRepeated listing id) ∧
      ∀ id, FirstRepeated listing id →
        (decodeRules (.mapping entries)).Fails scope followed (.duplicateRule id) := by
  refine ⟨fun c => ⟨⟨fun h => ?_, ofNode_encode_of_distinct⟩, not_domainsDistinct_iff,
      fun id h => ofNode_encode_of_repeated h⟩,
    fun scope followed followed' entries listing hread => ⟨⟨fun h => ?_, fun h => ?_⟩,
      decodeRules_of_distinct hread, not_rulesDistinct_iff,
      fun id h => decodeRules_of_repeated hread h⟩⟩
  · by_contra hids
    obtain ⟨id, hid⟩ := not_domainsDistinct_iff.1 hids
    rw [ofNode_encode_of_repeated hid] at h
    cases h
  · by_contra hids
    obtain ⟨id, hid⟩ := not_rulesDistinct_iff.1 hids
    obtain ⟨rules, followed'', hrules⟩ := h
    exact (decodeRules_of_repeated hread hid).not_gives hrules
  · exact ⟨listing, followed', decodeRules_of_distinct hread h⟩

/-- The second `a` is a reference; the first one and `b` leave out fields, and `b` has one that
means nothing. -/
def threeEntries : List (Node × Node) := [
  (.plain "a", .mapping [(.plain "link-name", .plain "A")]),
  (.plain "b", .mapping [(.plain "owner", .plain "ops"), (.plain "link-name", .plain "B")]),
  (.quoted "a", .reference 0)]

def oneAnchor : Scope :=
  ⟨[(0, .mapping [(.plain "priority", .plain "7"), (.plain "link-name", .quoted "A")])], 100⟩

theorem third_entry_repeats_first :
    (threeEntries.mapM readRule).Gives oneAnchor 0
      [("a", ⟨"A", "", 0, ""⟩), ("b", ⟨"B", "", 0, ""⟩), ("a", ⟨"A", "", 7, ""⟩)] 1 ∧
    (decodeRules (.mapping threeEntries)).Fails oneAnchor 0 (.duplicateRule "a") := by
  have hread : (threeEntries.mapM readRule).Gives oneAnchor 0
      [("a", ⟨"A", "", 0, ""⟩), ("b", ⟨"B", "", 0, ""⟩), ("a", ⟨"A", "", 7, ""⟩)] 1 := by
    unfold Decoder.Gives
    decide +kernel
  obtain ⟨-, -, -, hrepeated⟩ := read_back_iff_ids_distinct.2 _ _ _ _ _ hread
  refine ⟨hread, hrepeated "a" ⟨[("a", ⟨"A", "", 0, ""⟩), ("b", ⟨"B", "", 0, ""⟩)],
    ⟨"A", "", 7, ""⟩, [], rfl, ?_, ?_⟩⟩
  · unfold RulesDistinct
    decide
  · decide

end Config
end BackendRouting
