import BackendRouting.Proofs.Lexeme

/-!
# Reading lexemes from a text

What one step of the lexicon takes from a text, and what a whole scan gives.

* `mem_candidates_iff`: what the entries that match take (`Lexicon.candidates`).
* `first?_lexeme`, `first?_cases`: the standard lexicon takes a lexeme wherever one
  stands, and only there. The lexeme is the only one that could be taken, except that
  `FromPartyId` is not taken in front of `Type` (`Lexeme.Cut`).
* `scan_eq_iff`: the tokens of a text are those of the relation `Lexed`.
* `lexemes_scan_iff`: a scan gives the lexemes `xs` exactly if the text spells them.
-/
namespace BackendRouting

open Pattern (isSpace isValueChar isQuotable)

/-! ## One lexeme -/

/-- `w` is what an entry of kind `k` takes from the start of the text. -/
def Kind.Takes (k : Kind) (w cs : List Char) : Prop :=
  ∃ m, (k, m) ∈ Lexicon.standard ∧ m.lexeme? cs = some w ∧ w ≠ []

/-- In front of `rest` the lexeme is only the beginning of a longer one. -/
def Lexeme.Cut (x : Lexeme) (rest : List Char) : Prop :=
  x = .word (.attr .fromPartyId) ∧ "Type".toList <+: rest

theorem lexeme?_literal {word : String} {cs w : List Char} :
    (Matcher.literal word).lexeme? cs = some w ↔ w = word.toList ∧ w <+: cs := by
  simp only [Matcher.lexeme?, List.isPrefixOf_iff_prefix, Option.ite_none_right_eq_some,
    Option.some.injEq]
  constructor
  · intro h
    exact ⟨h.2.symm, h.2 ▸ h.1⟩
  · intro h
    exact ⟨h.1 ▸ h.2, h.1.symm⟩

theorem lexeme?_quote {cs : List Char} :
    Matcher.quoted.lexeme? ('\'' :: cs) =
      if cs.takeWhile isValueChar ≠ [] ∧ (cs.dropWhile isValueChar).head? = some '\'' then
        some ('\'' :: (cs.takeWhile isValueChar ++ ['\'']))
      else none := rfl

theorem lexeme?_quoted {cs w : List Char} :
    Matcher.quoted.lexeme? cs = some w ↔
      ∃ value, isQuotable value = true ∧ w = (Lexeme.quoted value).chars ∧ w <+: cs := by
  constructor
  · intro h
    obtain ⟨cs, rfl⟩ : ∃ cs', cs = '\'' :: cs' := by
      unfold Matcher.lexeme? at h
      split at h <;> simp_all
    rw [lexeme?_quote, Option.ite_none_right_eq_some, Option.some.injEq] at h
    obtain ⟨⟨hne, hq⟩, rfl⟩ := h
    obtain ⟨rest, hrest⟩ := List.head?_eq_some_iff.1 hq
    have hall := List.all_eq_true.1 (List.all_takeWhile (p := isValueChar) (l := cs))
    have hsplit := List.takeWhile_append_dropWhile (p := isValueChar) (l := cs)
    rw [hrest] at hsplit
    refine ⟨String.ofList (cs.takeWhile isValueChar), ?_, by simp [Lexeme.chars], rest, ?_⟩
    · rw [isQuotable_iff, String.toList_ofList]
      exact ⟨hne, hall⟩
    · simpa using hsplit
  · intro h
    obtain ⟨value, hv, rfl, rest, rfl⟩ := h
    obtain ⟨hne, hall⟩ := isQuotable_iff.1 hv
    have hquote : ∀ c ∈ ('\'' :: rest).head?, isValueChar c = false := by
      simp [Lexeme.not_isValueChar_quote]
    have hcs : (Lexeme.quoted value).chars ++ rest = '\'' :: (value.toList ++ '\'' :: rest) := by
      simp [Lexeme.chars]
    rw [hcs, lexeme?_quote, takeWhile_run hall hquote, dropWhile_run hall hquote,
      if_pos ⟨hne, rfl⟩, Lexeme.chars]

namespace Kind.Takes

variable {k k' : Kind} {w w' cs : List Char}

theorem iff : k.Takes w cs ↔ (k = .space ∧ w = cs.takeWhile isSpace ∧ w ≠ []) ∨
    ∃ x : Lexeme, x.Readable ∧ x.kind = k ∧ x.chars = w ∧ w <+: cs := by
  constructor
  · intro h
    obtain ⟨m, hm, hw, hne⟩ := h
    rcases mem_standard_iff.1 hm with ⟨hk, rfl⟩ | ⟨rfl, rfl⟩ | ⟨rfl, rfl⟩
    · obtain ⟨rfl, hpre⟩ := lexeme?_literal.1 hw
      exact .inr ⟨.word k, hk, rfl, rfl, hpre⟩
    · exact .inl ⟨rfl, by simpa [Matcher.lexeme?] using hw.symm, hne⟩
    · obtain ⟨value, hv, rfl, hpre⟩ := lexeme?_quoted.1 hw
      exact .inr ⟨.quoted value, hv, rfl, rfl, hpre⟩
  · intro h
    obtain ⟨rfl, rfl, hne⟩ | ⟨x, hx, rfl, rfl, hpre⟩ := h
    · exact ⟨.spaces, mem_standard_iff.2 (.inr (.inl ⟨rfl, rfl⟩)), rfl, hne⟩
    · have hne := Lexeme.chars_ne_nil hx
      cases x with
      | word k =>
        exact ⟨.literal k.display, mem_standard_iff.2 (.inl ⟨hx, rfl⟩),
          lexeme?_literal.2 ⟨rfl, hpre⟩, hne⟩
      | quoted value =>
        exact ⟨.quoted, mem_standard_iff.2 (.inr (.inr ⟨rfl, rfl⟩)),
          lexeme?_quoted.2 ⟨value, hx, rfl, hpre⟩, hne⟩

theorem not_prefix_of_space {x : Lexeme} (hx : x.Readable) (h : cs.takeWhile isSpace ≠ []) :
    ¬ x.chars <+: cs := by
  intro hpre
  obtain ⟨rest, rfl⟩ := hpre
  obtain ⟨c, r, hc⟩ := List.exists_cons_of_ne_nil (Lexeme.chars_ne_nil hx)
  have hs := Lexeme.not_isSpace_of_mem hx (c := c) (by simp [hc])
  exact h (by simp [hc, hs])

/-- Two entries take the same lexeme from a text, unless the text starts with
`FromPartyIdType`. -/
theorem unique (h : k.Takes w cs) (h' : k'.Takes w' cs) :
    (k = k' ∧ w = w') ∨
      "FromPartyIdType".toList <+: cs ∧ (k = .attr .fromPartyId ∨ k' = .attr .fromPartyId) := by
  rcases iff.1 h with ⟨rfl, rfl, hne⟩ | ⟨x, hx, rfl, rfl, hpre⟩ <;>
  rcases iff.1 h' with ⟨rfl, rfl, hne'⟩ | ⟨y, hy, rfl, rfl, hpre'⟩
  · exact .inl ⟨rfl, rfl⟩
  · exact absurd hpre' (not_prefix_of_space hy hne)
  · exact absurd hpre (not_prefix_of_space hx hne')
  · rcases List.prefix_or_prefix_of_prefix hpre hpre' with hxy | hyx
    · rcases Lexeme.eq_of_chars_prefix hx hy hxy with rfl | ⟨rfl, rfl⟩
      · exact .inl ⟨rfl, rfl⟩
      · exact .inr ⟨hpre', .inl rfl⟩
    · rcases Lexeme.eq_of_chars_prefix hy hx hyx with rfl | ⟨rfl, rfl⟩
      · exact .inl ⟨rfl, rfl⟩
      · exact .inr ⟨hpre, .inr rfl⟩

end Kind.Takes

namespace Lexicon

variable {k : Kind} {w cs : List Char}

/-- What an entry takes from the start of the text; an empty lexeme is no match. -/
def candidate? (cs : List Char) (entry : Kind × Matcher) : Option (Kind × List Char) :=
  (entry.2.lexeme? cs).bind fun w => if w = [] then none else some (entry.1, w)

/-- One candidate for each entry that matches at the start of the text, in their order. -/
def candidates (lexicon : Lexicon) (cs : List Char) : List (Kind × List Char) :=
  lexicon.filterMap (candidate? cs)

theorem first?_eq_head? (lexicon : Lexicon) (cs : List Char) :
    lexicon.first? cs = (lexicon.candidates cs).head? := by
  rw [candidates, List.head?_filterMap]
  rfl

theorem candidate?_eq_some_iff {e : Kind × Matcher} :
    candidate? cs e = some (k, w) ↔ e.1 = k ∧ e.2.lexeme? cs = some w ∧ w ≠ [] := by
  constructor
  · intro h
    obtain ⟨v, hv, h⟩ := Option.bind_eq_some_iff.1 h
    split at h
    · cases h
    · cases h
      exact ⟨rfl, hv, ‹_›⟩
  · intro h
    obtain ⟨rfl, hw, hne⟩ := h
    rw [candidate?, hw, Option.bind_some, if_neg hne]

theorem mem_candidates_iff : (k, w) ∈ standard.candidates cs ↔ k.Takes w cs := by
  simp only [candidates, List.mem_filterMap, candidate?_eq_some_iff]
  constructor
  · intro h
    obtain ⟨⟨k, m⟩, he, rfl, hw, hne⟩ := h
    exact ⟨m, he, hw, hne⟩
  · intro h
    obtain ⟨m, he, hw, hne⟩ := h
    exact ⟨(k, m), he, rfl, hw, hne⟩

theorem takes_of_first? (h : standard.first? cs = some (k, w)) : k.Takes w cs := by
  rw [first?_eq_head?] at h
  exact mem_candidates_iff.1 (List.mem_of_mem_head? h)

theorem first?_isSome (h : k.Takes w cs) : (standard.first? cs).isSome = true := by
  rw [first?_eq_head?, List.isSome_head?]
  exact List.ne_nil_of_mem (mem_candidates_iff.2 h)

/-- Of the two attributes that match here the longer one comes first. -/
theorem first?_fromPartyIdType (rest : List Char) :
    standard.first? ("FromPartyIdType".toList ++ rest) =
      some (.attr .fromPartyIdType, "FromPartyIdType".toList) := by
  rfl

theorem first?_of_takes (h : k.Takes w cs)
    (hid : k = .attr .fromPartyId → ¬ "FromPartyIdType".toList <+: cs) :
    standard.first? cs = some (k, w) := by
  obtain ⟨⟨k', w'⟩, hfirst⟩ := Option.isSome_iff_exists.1 (first?_isSome h)
  rcases h.unique (takes_of_first? hfirst) with ⟨rfl, rfl⟩ | ⟨hpre, hk⟩
  · exact hfirst
  · exfalso
    obtain ⟨rest, rfl⟩ := hpre
    rw [first?_fromPartyIdType] at hfirst
    cases hfirst
    rcases hk with rfl | hk
    · exact hid rfl ⟨rest, rfl⟩
    · cases hk

theorem first?_lexeme {x : Lexeme} {rest : List Char} (hx : x.Readable) (hcut : ¬ x.Cut rest) :
    standard.first? (x.chars ++ rest) = some (x.kind, x.chars) := by
  refine first?_of_takes (Kind.Takes.iff.2 (.inr ⟨x, hx, rfl, rfl, rest, rfl⟩)) fun hk hpre => ?_
  obtain rfl := Lexeme.eq_word hk nofun
  refine hcut ⟨rfl, ?_⟩
  exact (List.prefix_append_right_inj "FromPartyId".toList).1 hpre

theorem first?_space {c : Char} (hc : isSpace c = true) :
    standard.first? (c :: cs) = some (.space, (c :: cs).takeWhile isSpace) :=
  first?_of_takes (Kind.Takes.iff.2 (.inl ⟨rfl, rfl, by simp [hc]⟩)) nofun

/-- Whatever is taken is a run of spaces or a lexeme that is not cut. -/
theorem first?_cases (h : standard.first? cs = some (k, w)) :
    (k = .space ∧ w = cs.takeWhile isSpace) ∨
      ∃ x : Lexeme, ∃ rest, x.Readable ∧ ¬ x.Cut rest ∧ x.kind = k ∧ x.chars = w ∧
        cs = x.chars ++ rest := by
  rcases Kind.Takes.iff.1 (takes_of_first? h) with ⟨rfl, rfl, -⟩ | ⟨x, hx, rfl, rfl, rest, rfl⟩
  · exact .inl ⟨rfl, rfl⟩
  · refine .inr ⟨x, rest, hx, ?_, rfl, rfl, rfl⟩
    intro hcut
    obtain ⟨rfl, rest, rfl⟩ := hcut
    have := first?_fromPartyIdType rest
    rw [show "FromPartyIdType".toList ++ rest =
      (Lexeme.word (.attr .fromPartyId)).chars ++ ("Type".toList ++ rest) from rfl, h] at this
    cases this

end Lexicon

/-! ## A whole text -/

/-- The tokens of a text that starts `n` characters into the pattern: a run of spaces and
the end, a run of spaces and what cannot be read, or a run of spaces and a lexeme. -/
inductive Lexed : Nat → List Char → List Token → Prop where
  | blank {n g} : Spaces g → Lexed n g [Token.ending (n + g.length)]
  | stuck {n g cs} : Spaces g → cs ≠ [] → Lexicon.standard.first? cs = none →
      Lexed n (g ++ cs)
        [⟨.illegal, String.ofList cs, n + g.length, n + g.length + cs.length⟩]
  | lexeme {n g x cs ts} : Spaces g → Lexeme.Readable x → ¬ x.Cut cs →
      Lexed (n + g.length + x.chars.length) cs ts →
      Lexed n (g ++ (x.chars ++ cs)) (x.token (n + g.length) :: ts)

namespace Lexicon

variable {lexicon : Lexicon} {n : Nat} {g cs : List Char} {ts : List Token}

theorem scan_nil : lexicon.scan n [] = [Token.ending n] := by
  rw [scan]
  split
  · simp
  · rename_i h; rw [first?_nil] at h; cases h

theorem scan_stuck (hne : cs ≠ []) (h : lexicon.first? cs = none) :
    lexicon.scan n cs = [⟨.illegal, String.ofList cs, n, n + cs.length⟩] := by
  rw [scan]
  split
  · rw [if_neg hne]
  · rename_i h'; rw [h] at h'; cases h'

theorem scan_of_first? {k : Kind} {w : List Char} (h : lexicon.first? cs = some (k, w)) :
    lexicon.scan n cs =
      if k = .space then lexicon.scan (n + w.length) (cs.drop w.length)
      else ⟨k, String.ofList w, n, n + w.length⟩ ::
        lexicon.scan (n + w.length) (cs.drop w.length) := by
  rw [scan]
  split
  · rename_i h'; rw [h] at h'; cases h'
  · rename_i h'; rw [h] at h'; cases h'; rfl

theorem scan_lexeme {x : Lexeme} (hx : x.Readable) (hcut : ¬ x.Cut cs) :
    standard.scan n (x.chars ++ cs) = x.token n :: standard.scan (n + x.chars.length) cs := by
  have hk : x.kind ≠ .space := Lexeme.kind_ne hx rfl nofun
  rw [scan_of_first? (first?_lexeme hx hcut), if_neg hk, List.drop_left]
  rfl

/-- A scan takes all the spaces at the start of its text at once. -/
theorem scan_run (hg : Spaces g) (hcs : ∀ c ∈ cs.head?, isSpace c = false) :
    standard.scan n (g ++ cs) = standard.scan (n + g.length) cs := by
  cases g with
  | nil => simp
  | cons c g =>
    have hfirst : standard.first? (c :: g ++ cs) =
        some (.space, (c :: g ++ cs).takeWhile isSpace) := first?_space (hg c (by simp))
    rw [takeWhile_run hg hcs] at hfirst
    rw [scan_of_first? hfirst, if_pos rfl, List.drop_left]

theorem scan_spaces (hg : Spaces g) :
    standard.scan n (g ++ cs) = standard.scan (n + g.length) cs := by
  have hrun : Spaces (cs.takeWhile isSpace) := List.all_eq_true.1 List.all_takeWhile
  have hrest : ∀ c ∈ (cs.dropWhile isSpace).head?, isSpace c = false := by
    intro c hc
    have := List.head?_dropWhile_not isSpace cs
    rwa [Option.mem_def.1 hc] at this
  rw [← List.takeWhile_append_dropWhile (p := isSpace) (l := cs), ← List.append_assoc,
    scan_run (hg.append hrun) hrest, scan_run hrun hrest, List.length_append, Nat.add_assoc]

/-- Every text starts with a run of spaces, and then it is at its end, cannot be read, or goes
on with a lexeme. -/
theorem text_cases (cs : List Char) : ∃ g r, cs = g ++ r ∧ Spaces g ∧
    (r = [] ∨ (r ≠ [] ∧ standard.first? r = none) ∨
      ∃ (x : Lexeme) (cs' : List Char), x.Readable ∧ ¬ x.Cut cs' ∧ r = x.chars ++ cs') := by
  refine ⟨cs.takeWhile isSpace, cs.dropWhile isSpace,
    (List.takeWhile_append_dropWhile (p := isSpace) (l := cs)).symm,
    List.all_eq_true.1 List.all_takeWhile, ?_⟩
  have hhead := List.head?_dropWhile_not isSpace cs
  generalize cs.dropWhile isSpace = r at hhead
  by_cases hr : r = []
  · exact .inl hr
  · refine .inr ?_
    cases h : standard.first? r with
    | none => exact .inl ⟨hr, rfl⟩
    | some taken =>
      obtain ⟨k, w⟩ := taken
      rcases first?_cases h with ⟨-, rfl⟩ | ⟨x, cs', hx, hcut, -, -, rfl⟩
      · exfalso
        obtain ⟨c, r, rfl⟩ := List.exists_cons_of_ne_nil hr
        refine ne_nil_of_first? h ?_
        simp only [List.head?_cons] at hhead
        simp [hhead]
      · exact .inr ⟨x, cs', hx, hcut, rfl⟩

theorem lexed_scan (n : Nat) (cs : List Char) : Lexed n cs (standard.scan n cs) := by
  induction hlen : cs.length using Nat.strongRecOn generalizing n cs with
  | ind len ih =>
    obtain ⟨g, r, rfl, hg, rfl | ⟨hr, hnone⟩ | ⟨x, cs, hx, hcut, rfl⟩⟩ := text_cases cs
    · rw [scan_spaces hg, scan_nil]
      simpa using Lexed.blank hg
    · rw [scan_spaces hg, scan_stuck hr hnone]
      exact .stuck hg hr hnone
    · rw [scan_spaces hg, scan_lexeme hx hcut]
      have hpos := List.length_pos_iff.2 (Lexeme.chars_ne_nil hx)
      have hlt : cs.length < len := by
        rw [← hlen, List.length_append, List.length_append]; omega
      exact .lexeme hg hx hcut (ih cs.length hlt _ cs rfl)

/-- The relation and the scan agree. -/
theorem scan_eq_iff : standard.scan n cs = ts ↔ Lexed n cs ts := by
  constructor
  · intro h
    subst h
    exact lexed_scan n cs
  · intro h
    induction h with
    | @blank n g hg =>
      have hscan : standard.scan n (g ++ []) = standard.scan (n + g.length) [] := scan_spaces hg
      rwa [List.append_nil, scan_nil] at hscan
    | stuck hg hne hnone => rw [scan_spaces hg, scan_stuck hne hnone]
    | lexeme hg hx hcut _ ih => rw [scan_spaces hg, scan_lexeme hx hcut, ih]

end Lexicon

/-! ## The lexemes of the tokens -/

namespace Token

variable {t : Token} {ts : List Token}

/-- The lexemes up to the first `stop`. -/
def lexemesOf (ts : List Token) : List Lexeme :=
  (ts.takeWhile (·.kind ≠ .stop)).map lexeme

@[simp] theorem lexemesOf_nil : lexemesOf [] = [] := rfl

theorem lexemesOf_stop (h : t.kind = .stop) : lexemesOf (t :: ts) = [] := by
  simp [lexemesOf, h]

theorem lexemesOf_cons (h : t.kind ≠ .stop) :
    lexemesOf (t :: ts) = t.lexeme :: lexemesOf ts := by
  simp [lexemesOf, h]

end Token

namespace Lexeme

variable {x : Lexeme} {n : Nat} {ts : List Token}

theorem lexeme_token (hx : x.Readable) : (x.token n).lexeme = x := by
  cases x with
  | word k =>
    refine if_neg fun hk => ?_
    subst hk
    cases hx
  | quoted value => simp [token, Token.lexeme, kind, chars, Token.unquoted]

theorem lexemesOf_token (hx : x.Readable) :
    Token.lexemesOf (x.token n :: ts) = x :: Token.lexemesOf ts := by
  have hk : x.kind ≠ .stop := kind_ne hx rfl nofun
  rw [Token.lexemesOf_cons hk, lexeme_token hx]

theorem word_head : ∀ k ∈ Kind.words, k.display.toList.head? ≠ some 'T' := by decide +kernel

end Lexeme

/-- No lexeme starts with the rest of an attribute's name. -/
theorem Written.head?_ne {xs : List Lexeme} {cs : List Char} (hr : ∀ y ∈ xs, y.Readable)
    (h : Written xs cs) : cs.head? ≠ some 'T' := by
  intro hhead
  cases h with
  | nil hg => have := hg 'T' (List.mem_of_head? hhead); cases this
  | @cons g y ys cs hg h =>
    cases g with
    | nil =>
      have hy := hr y (by simp)
      obtain ⟨c, r, hc⟩ := List.exists_cons_of_ne_nil (Lexeme.chars_ne_nil hy)
      obtain rfl : c = 'T' := by simpa [hc] using hhead
      cases y with
      | word k => exact Lexeme.word_head k (Kind.mem_words hy) (congrArg List.head? hc)
      | quoted value => cases hc
    | cons c g =>
      obtain rfl : c = 'T' := by simpa using hhead
      have := hg 'T' (by simp)
      cases this

/-- So in a written text no lexeme is cut. -/
theorem Written.not_cut {x : Lexeme} {xs : List Lexeme} {cs : List Char}
    (hr : ∀ y ∈ xs, y.Readable) (h : Written xs cs) : ¬ x.Cut cs := by
  intro hcut
  obtain ⟨-, rest, rfl⟩ := hcut
  exact h.head?_ne hr rfl

theorem Lexed.written {n : Nat} {cs : List Char} {ts : List Token} (h : Lexed n cs ts)
    (hill : .word .illegal ∉ Token.lexemesOf ts) :
    (∀ x ∈ Token.lexemesOf ts, x.Readable) ∧ Written (Token.lexemesOf ts) cs := by
  induction h with
  | blank hg =>
    rw [Token.lexemesOf_stop rfl]
    exact ⟨by simp, .nil hg⟩
  | stuck hg hne hnone =>
    rw [Token.lexemesOf_cons (by simp)] at hill
    exact absurd List.mem_cons_self hill
  | lexeme hg hx hcut _ ih =>
    rw [Lexeme.lexemesOf_token hx] at hill ⊢
    obtain ⟨hr, hw⟩ := ih (fun hmem => hill (List.mem_cons_of_mem _ hmem))
    exact ⟨List.forall_mem_cons.2 ⟨hx, hr⟩, .cons hg hw⟩

theorem Written.lexemesOf_scan {n : Nat} {xs : List Lexeme} {cs : List Char}
    (hr : ∀ x ∈ xs, x.Readable) (h : Written xs cs) :
    Token.lexemesOf (Lexicon.standard.scan n cs) = xs := by
  induction h generalizing n with
  | @nil g hg =>
    rw [← List.append_nil g, Lexicon.scan_spaces hg, Lexicon.scan_nil]
    exact Token.lexemesOf_stop rfl
  | cons hg h ih =>
    obtain ⟨hx, hxs⟩ := List.forall_mem_cons.1 hr
    rw [Lexicon.scan_spaces hg, Lexicon.scan_lexeme hx (h.not_cut hxs),
      Lexeme.lexemesOf_token hx, ih hxs]

theorem Written.unique {xs ys : List Lexeme} {cs : List Char} (hx : ∀ x ∈ xs, x.Readable)
    (hy : ∀ y ∈ ys, y.Readable) (h : Written xs cs) (h' : Written ys cs) : xs = ys :=
  (h.lexemesOf_scan (n := 0) hx).symm.trans (h'.lexemesOf_scan hy)

/-- A scan gives the words and values `xs` exactly if all of them can be read and the text
spells them. -/
theorem lexemes_scan_iff {n : Nat} {xs : List Lexeme} {cs : List Char}
    (hill : .word .illegal ∉ xs) :
    Token.lexemesOf (Lexicon.standard.scan n cs) = xs ↔
      (∀ x ∈ xs, x.Readable) ∧ Written xs cs := by
  constructor
  · intro h
    subst h
    exact (Lexicon.lexed_scan n cs).written hill
  · intro h
    exact h.2.lexemesOf_scan h.1

end BackendRouting
