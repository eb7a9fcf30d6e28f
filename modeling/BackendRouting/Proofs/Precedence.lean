import BackendRouting.Proofs.Lexing

/-!
# The order of the lexicon

The first entry that matches wins, so the order of the entries could matter wherever a text is
read. It matters at one kind of place alone. The `candidates` of a place are what the entries that
match there take. Of two candidates one is the beginning of the other, and `FromPartyId` is the
only lexeme that begins another one. So there is one candidate at most where `FromPartyIdType` does
not stand, and two where it stands, the longer of which has to come first.

* `first?_eq_some_iff_longest`: the first match is the longest one.
* `first?_of_perm`, `candidates_of_sublist`: what is taken at a place in another order.
* `scan_congr`: a scan asks its lexicon only at the places it reaches.
* `order_matters_for_one_name`: all of this for the tokens of a text, in every order.
-/
namespace BackendRouting

/-- The entry of an attribute in the standard lexicon. -/
def Attribute.entry (a : Attribute) : Kind × Matcher := (.attr a, .literal a.name)

namespace Lexicon

variable {lexicon lexicon' pair : Lexicon} {n : Nat} {k : Kind} {w cs left : List Char}

/-! ## What matches at a place -/

theorem pairwise_candidates (cs : List Char) :
    (standard.candidates cs).Pairwise fun c c' => c.1 ≠ c'.1 := by
  have hkinds : standard.Pairwise fun e e' => e.1 ≠ e'.1 := by decide
  rw [candidates, List.pairwise_filterMap]
  refine hkinds.imp fun hne c hc c' hc' => ?_
  rwa [← (candidate?_eq_some_iff.1 hc).1, ← (candidate?_eq_some_iff.1 hc').1]

/-- Two candidates would be of the same kind, as no other lexeme begins another one. -/
theorem length_candidates_le_one (h : ¬ "FromPartyIdType".toList <+: cs) :
    (standard.candidates cs).length ≤ 1 := by
  match hc : standard.candidates cs with
  | [] => exact Nat.zero_le 1
  | [_] => exact Nat.le_refl 1
  | (k, w) :: (k', w') :: others =>
    have htakes : k.Takes w cs := mem_candidates_iff.1 (by simp [hc])
    have htakes' : k'.Takes w' cs := mem_candidates_iff.1 (by simp [hc])
    have hkinds := pairwise_candidates cs
    rw [hc] at hkinds
    have hne : k ≠ k' := (List.pairwise_cons.1 hkinds).1 _ List.mem_cons_self
    rcases htakes.unique htakes' with ⟨hk, -⟩ | ⟨hpre, -⟩
    · exact absurd hk hne
    · exact absurd hpre h

theorem candidates_fromPartyIdType (rest : List Char) :
    standard.candidates ("FromPartyIdType".toList ++ rest) =
      [(.attr .fromPartyIdType, "FromPartyIdType".toList),
        (.attr .fromPartyId, "FromPartyId".toList)] := by
  rfl

/-- At every place there is no candidate or one, or the two names stand there. -/
theorem candidates_cases (cs : List Char) :
    standard.candidates cs = [] ∨ (∃ c, standard.candidates cs = [c]) ∨
      ∃ rest, cs = "FromPartyIdType".toList ++ rest := by
  by_cases hcs : "FromPartyIdType".toList <+: cs
  · obtain ⟨rest, rfl⟩ := hcs
    exact .inr (.inr ⟨rest, rfl⟩)
  · have hone := length_candidates_le_one hcs
    rcases Nat.le_one_iff_eq_zero_or_eq_one.1 hone with hzero | hone
    · exact .inl (List.length_eq_zero_iff.1 hzero)
    · exact .inr (.inl (List.length_eq_one_iff.1 hone))

/-- The first match is the longest one, and no other match is as long. -/
theorem first?_eq_some_iff_longest {c : Kind × List Char} :
    standard.first? cs = some c ↔
      c ∈ standard.candidates cs ∧ ∀ c' ∈ standard.candidates cs, c'.2.length ≤ c.2.length := by
  rw [first?_eq_head?]
  rcases candidates_cases cs with hnone | ⟨c₁, hone⟩ | ⟨rest, rfl⟩
  · simp [hnone]
  · simp +contextual [hone, eq_comm]
  · rw [candidates_fromPartyIdType]
    have hlt : "FromPartyId".toList.length < "FromPartyIdType".toList.length := by decide
    simp only [List.head?_cons, Option.some.injEq, List.mem_cons, List.not_mem_nil, or_false,
      forall_eq_or_imp, forall_eq]
    constructor
    · intro h
      subst h
      exact ⟨.inl rfl, Nat.le_refl _, Nat.le_of_lt hlt⟩
    · intro h
      obtain ⟨rfl | rfl, hle, -⟩ := h
      · rfl
      · exact absurd hle (Nat.not_le.2 hlt)

/-! ## Another order -/

/-- The entry of `a` stands before that of `b`. -/
def Precedes (lexicon : Lexicon) (a b : Attribute) : Prop :=
  [a.entry, b.entry].Sublist lexicon

instance (lexicon : Lexicon) (a b : Attribute) : Decidable (lexicon.Precedes a b) :=
  inferInstanceAs (Decidable (List.Sublist _ _))

theorem candidates_perm (h : lexicon.Perm lexicon') (cs : List Char) :
    (lexicon.candidates cs).Perm (lexicon'.candidates cs) :=
  h.filterMap _

/-- A single candidate is the first one in every order. -/
theorem first?_of_perm (h : lexicon.Perm standard) (hcs : ¬ "FromPartyIdType".toList <+: cs) :
    lexicon.first? cs = standard.first? cs := by
  have hperm := candidates_perm h cs
  rw [first?_eq_head?, first?_eq_head?]
  rcases candidates_cases cs with hnone | ⟨c, hone⟩ | ⟨rest, rfl⟩
  · rw [hnone] at hperm ⊢
    rw [hperm.eq_nil]
  · rw [hone] at hperm ⊢
    rw [List.perm_singleton.1 hperm]
  · exact absurd (List.prefix_append ..) hcs

/-- Where the two names stand, nothing but their order counts. -/
theorem candidates_of_sublist (h : lexicon.Perm standard)
    (hpair : pair.Perm [Attribute.fromPartyIdType.entry, Attribute.fromPartyId.entry])
    (hsub : pair.Sublist lexicon) (rest : List Char) :
    lexicon.candidates ("FromPartyIdType".toList ++ rest) =
      pair.candidates ("FromPartyIdType".toList ++ rest) := by
  have hall := (candidates_perm h ("FromPartyIdType".toList ++ rest)).length_eq
  have hboth := (candidates_perm hpair ("FromPartyIdType".toList ++ rest)).length_eq
  rw [candidates_fromPartyIdType] at hall
  exact ((hsub.filterMap _).eq_of_length (hboth.trans hall.symm)).symm

theorem first?_of_precedes (h : lexicon.Perm standard)
    (hkept : lexicon.Precedes .fromPartyIdType .fromPartyId) (cs : List Char) :
    lexicon.first? cs = standard.first? cs := by
  by_cases hcs : "FromPartyIdType".toList <+: cs
  · obtain ⟨rest, rfl⟩ := hcs
    rw [first?_fromPartyIdType, first?_eq_head?, candidates_of_sublist h (.refl _) hkept]
    rfl
  · exact first?_of_perm h hcs

/-- Behind the shorter name the longer one is never taken. -/
theorem first?_ne_of_precedes (h : lexicon.Perm standard)
    (hswapped : lexicon.Precedes .fromPartyId .fromPartyIdType) :
    lexicon.first? cs ≠ some (.attr .fromPartyIdType, w) := by
  intro hfirst
  rw [first?_eq_head?] at hfirst
  have hmem := (candidates_perm h cs).mem_iff.1 (List.mem_of_mem_head? hfirst)
  rcases Kind.Takes.iff.1 (mem_candidates_iff.1 hmem) with ⟨hk, -⟩ | ⟨x, -, hk, rfl, rest, rfl⟩
  · cases hk
  · obtain rfl := Lexeme.eq_word hk nofun
    have htwo := candidates_of_sublist h (.swap ..) hswapped rest
    have hchars : (Lexeme.word (.attr .fromPartyIdType)).chars = "FromPartyIdType".toList := rfl
    rw [hchars, htwo] at hfirst
    cases hfirst

/-! ## The places that a scan reaches -/

/-- A scan of the text comes to the place where `left` is left of it. -/
inductive Reaches (lexicon : Lexicon) : (cs left : List Char) → Prop where
  | here (cs : List Char) : Reaches lexicon cs cs
  | next {cs left : List Char} {k : Kind} {w : List Char} : lexicon.first? cs = some (k, w) →
      Reaches lexicon (cs.drop w.length) left → Reaches lexicon cs left

theorem Reaches.suffix (h : lexicon.Reaches cs left) : left <:+ cs := by
  induction h with
  | here cs => exact List.suffix_rfl
  | next _ _ ih => exact ih.trans (List.drop_suffix ..)

/-- Lexicons that take the same except at a certain word come to that word in the same texts. -/
theorem Reaches.exists_of_agree {word rest : List Char}
    (hagree : ∀ cs, ¬ word <+: cs → lexicon.first? cs = lexicon'.first? cs)
    (h : lexicon.Reaches cs (word ++ rest)) : ∃ rest', lexicon'.Reaches cs (word ++ rest') := by
  generalize hleft : word ++ rest = left at h
  induction h with
  | here cs => exact ⟨rest, hleft ▸ .here _⟩
  | @next cs left k w hfirst _ ih =>
    by_cases hcs : word <+: cs
    · obtain ⟨rest', rfl⟩ := hcs
      exact ⟨rest', .here _⟩
    · obtain ⟨rest', hrest⟩ := ih hleft
      exact ⟨rest', .next ((hagree cs hcs).symm.trans hfirst) hrest⟩

/-- A scan asks its lexicon only at the places it reaches. -/
theorem scan_congr
    (h : ∀ left, lexicon.Reaches cs left → lexicon.first? left = lexicon'.first? left) :
    lexicon.scan n cs = lexicon'.scan n cs := by
  fun_induction Lexicon.scan lexicon n cs with
  | case1 n hnone => rw [scan_nil]
  | case2 n cs hnone hne => rw [scan_stuck hne ((h cs (.here cs)).symm.trans hnone)]
  | case3 n cs w next tokens hfirst ih =>
    rw [scan_of_first? ((h cs (.here cs)).symm.trans hfirst), if_pos rfl]
    exact ih fun left hleft => h left (.next hfirst hleft)
  | case4 n cs k w hfirst next tokens hk ih =>
    rw [scan_of_first? ((h cs (.here cs)).symm.trans hfirst), if_neg hk]
    exact congrArg _ (ih fun left hleft => h left (.next hfirst hleft))

/-- What is taken at such a place is one of the tokens, unless it is spaces. -/
theorem exists_token_of_reaches (h : lexicon.Reaches cs left)
    (hfirst : lexicon.first? left = some (k, w)) (hk : k ≠ .space) :
    ∃ t ∈ lexicon.scan n cs, t.kind = k := by
  induction h generalizing n with
  | here cs =>
    rw [scan_of_first? hfirst, if_neg hk]
    exact ⟨_, List.mem_cons_self, rfl⟩
  | @next cs left k' w' hfirst' _ ih =>
    obtain ⟨t, ht, hkind⟩ := ih hfirst (n := n + w'.length)
    rw [scan_of_first? hfirst']
    split
    · exact ⟨t, ht, hkind⟩
    · exact ⟨t, List.mem_cons_of_mem _ ht, hkind⟩

/-- Every token is taken somewhere, but for the last one. -/
theorem exists_first?_of_mem {t : Token} (ht : t ∈ lexicon.scan n cs) :
    t.kind = .stop ∨ t.kind = .illegal ∨ ∃ left w, lexicon.first? left = some (t.kind, w) := by
  fun_induction Lexicon.scan lexicon n cs with
  | case1 n hnone =>
    obtain rfl := List.mem_singleton.1 ht
    exact .inl rfl
  | case2 n cs hnone hne =>
    obtain rfl := List.mem_singleton.1 ht
    exact .inr (.inl rfl)
  | case3 n cs w next tokens hfirst ih => exact ih ht
  | case4 n cs k w hfirst next tokens hk ih =>
    rcases List.mem_cons.1 ht with rfl | ht
    · exact .inr (.inr ⟨cs, w, hfirst⟩)
    · exact ih ht

/-! ## Texts -/

/-- Reading the text comes to a place where `FromPartyIdType` stands. -/
def MeetsLongerName (lexicon : Lexicon) (s : String) : Prop :=
  ∃ rest, lexicon.Reaches s.toList ("FromPartyIdType".toList ++ rest)

variable {s : String}

theorem MeetsLongerName.not_isBlank (h : lexicon.MeetsLongerName s) : Text.isBlank s = false := by
  obtain ⟨rest, hreach⟩ := h
  refine Bool.eq_false_iff.2 fun hblank => ?_
  have hmem : 'F' ∈ s.toList := hreach.suffix.subset (by simp)
  exact absurd (List.all_eq_true.1 hblank 'F' hmem) (by decide)

theorem meetsLongerName_iff_of_perm (h : lexicon.Perm standard) :
    lexicon.MeetsLongerName s ↔ standard.MeetsLongerName s := by
  constructor
  · intro hmeets
    obtain ⟨rest, hreach⟩ := hmeets
    exact hreach.exists_of_agree fun _ hcs => first?_of_perm h hcs
  · intro hmeets
    obtain ⟨rest, hreach⟩ := hmeets
    exact hreach.exists_of_agree fun _ hcs => (first?_of_perm h hcs).symm

theorem scan_of_not_meetsLongerName (h : lexicon.Perm standard)
    (hmeets : ¬ lexicon.MeetsLongerName s) :
    lexicon.scan n s.toList = standard.scan n s.toList := by
  refine scan_congr fun left hleft => first?_of_perm h fun hpre => ?_
  obtain ⟨rest, rfl⟩ := hpre
  exact hmeets ⟨rest, hleft⟩

/-- With the shorter name first no token is of the longer one. -/
theorem scan_ne_of_meetsLongerName (h : lexicon.Perm standard)
    (hswapped : lexicon.Precedes .fromPartyId .fromPartyIdType)
    (hmeets : standard.MeetsLongerName s) :
    lexicon.scan n s.toList ≠ standard.scan n s.toList := by
  intro heq
  obtain ⟨rest, hreach⟩ := hmeets
  obtain ⟨t, ht, hkind⟩ :=
    exists_token_of_reaches (n := n) hreach (first?_fromPartyIdType rest) nofun
  rw [← heq] at ht
  rcases exists_first?_of_mem ht with hstop | hillegal | ⟨left, w, hfirst⟩
  · cases hkind.symm.trans hstop
  · cases hkind.symm.trans hillegal
  · exact first?_ne_of_precedes h hswapped (hkind ▸ hfirst)

theorem tokens?_eq_iff_of_precedes (h : lexicon.Perm standard)
    (hswapped : lexicon.Precedes .fromPartyId .fromPartyIdType) :
    lexicon.tokens? s = standard.tokens? s ↔ ¬ standard.MeetsLongerName s := by
  constructor
  · intro htokens hmeets
    rw [tokens?, tokens?, hmeets.not_isBlank] at htokens
    exact scan_ne_of_meetsLongerName h hswapped hmeets (Option.some.inj htokens)
  · intro hmeets
    rw [← meetsLongerName_iff_of_perm h] at hmeets
    rw [tokens?, tokens?, scan_of_not_meetsLongerName h hmeets]

/-- **The order of the lexicon.** The first entry that matches is the one with the longest lexeme.
No two entries match at the same place, except that where `FromPartyIdType` stands exactly its
entry and that of `FromPartyId` do. So the tokens of a text are the same in every order that has
the longer one of these names first; in every other order they differ for just the texts in which
reading comes to a place where the longer name stands, in either order. -/
theorem order_matters_for_one_name :
    (∀ cs c, standard.first? cs = some c ↔
      c ∈ standard.candidates cs ∧ ∀ c' ∈ standard.candidates cs, c'.2.length ≤ c.2.length) ∧
    (∀ cs, ¬ "FromPartyIdType".toList <+: cs → (standard.candidates cs).length ≤ 1) ∧
    (∀ rest, standard.candidates ("FromPartyIdType".toList ++ rest) =
      [(.attr .fromPartyIdType, "FromPartyIdType".toList),
        (.attr .fromPartyId, "FromPartyId".toList)]) ∧
    ∀ lexicon : Lexicon, lexicon.Perm standard → ∀ s,
      (lexicon.Precedes .fromPartyIdType .fromPartyId →
        lexicon.tokens? s = standard.tokens? s) ∧
      (lexicon.Precedes .fromPartyId .fromPartyIdType →
        (lexicon.tokens? s ≠ standard.tokens? s ↔ standard.MeetsLongerName s) ∧
        (lexicon.MeetsLongerName s ↔ standard.MeetsLongerName s)) := by
  refine ⟨fun cs c => first?_eq_some_iff_longest, fun cs => length_candidates_le_one,
    candidates_fromPartyIdType, fun lexicon h s => ⟨fun hkept => ?_, fun hswapped => ⟨?_, ?_⟩⟩⟩
  · have hscan : lexicon.scan 0 s.toList = standard.scan 0 s.toList :=
      scan_congr fun left _ => first?_of_precedes h hkept left
    rw [tokens?, tokens?, hscan]
  · rw [ne_eq, tokens?_eq_iff_of_precedes h hswapped, Classical.not_not]
  · exact meetsLongerName_iff_of_perm h

/-- An order that starts in the middle keeps the longer name first. Back to front it comes last, and
is taken apart where it stands, here behind another lexeme and a space. Without its last letter it
is the shorter name alone. -/
theorem longer_name_lost_back_to_front :
    (standard.candidates "FromPartyIdTyp".toList).length ≤ 1 ∧
    (standard.drop 3 ++ standard.take 3).Perm standard ∧
    Precedes (standard.drop 3 ++ standard.take 3) .fromPartyIdType .fromPartyId ∧
    tokens? (standard.drop 3 ++ standard.take 3) "( FromPartyIdType" =
      some [⟨.opening, "(", 0, 1⟩, ⟨.attr .fromPartyIdType, "FromPartyIdType", 2, 17⟩,
        .ending 17] ∧
    standard.reverse.Perm standard ∧ Precedes standard.reverse .fromPartyId .fromPartyIdType ∧
    tokens? standard.reverse "( FromPartyIdType" ≠ standard.tokens? "( FromPartyIdType" := by
  have hmoved : (standard.drop 3 ++ standard.take 3).Perm standard := by decide
  have hkept : Precedes (standard.drop 3 ++ standard.take 3) .fromPartyIdType .fromPartyId := by
    decide
  have hreversed : standard.reverse.Perm standard := standard.reverse_perm
  have hswapped : Precedes standard.reverse .fromPartyId .fromPartyIdType := by decide
  have hmeets : standard.MeetsLongerName "( FromPartyIdType" :=
    ⟨[], .next (show standard.first? _ = some (.opening, ['(']) by decide)
      (.next (show standard.first? _ = some (.space, [' ']) by decide) (.here _))⟩
  have htokens : standard.tokens? "( FromPartyIdType" = some [⟨.opening, "(", 0, 1⟩,
      ⟨.attr .fromPartyIdType, "FromPartyIdType", 2, 17⟩, .ending 17] := by decide +kernel
  obtain ⟨-, hone, -, horder⟩ := order_matters_for_one_name
  refine ⟨hone _ (by decide), hmoved, hkept, ?_, hreversed, hswapped, ?_⟩
  · rw [(horder _ hmoved _).1 hkept, htokens]
  · exact ((horder _ hreversed _).2 hswapped).1.2 hmeets

end Lexicon
end BackendRouting
