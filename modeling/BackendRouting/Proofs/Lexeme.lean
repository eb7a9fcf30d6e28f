import BackendRouting.Pattern.Lexicon
import BackendRouting.Pattern.Sentence

/-!
# Lexemes and how they are written

A lexeme is the word of a kind, or a value between quotes. A condition is a sequence
of lexemes (`Condition.lexemes`), and a text spells such a sequence if it is the
lexemes one after the other with runs of spaces in between (`Written`).

* `mem_standard_iff`: the standard lexicon has the words, the spaces and the quoted
  values, and nothing else.
* `eq_of_chars_prefix`: of two readable lexemes one is the beginning of the other only
  if they are the same, or `FromPartyId` and `FromPartyIdType`.
* `Written.split_at`: a comma or a bracket in a written text is a lexeme of its own.
* `written_render`: the canonical text of a condition spells its lexemes.
-/
namespace BackendRouting

open Pattern (isSpace isValueChar isQuotable)

/-- What is written for one token. -/
inductive Lexeme where
  | word (kind : Kind)
  | quoted (value : String)
  deriving DecidableEq

namespace Lexeme

def kind : Lexeme → Kind
  | word k => k
  | quoted _ => .value

def chars : Lexeme → List Char
  | word k => k.display.toList
  | quoted value => '\'' :: (value.toList ++ ['\''])

/-- The lexemes of the language: kinds with one lexeme, and values that can be quoted. -/
def Readable : Lexeme → Prop
  | word k => k.hasOneLexeme = true
  | quoted value => isQuotable value = true

def value? : Lexeme → Option String
  | word _ => none
  | quoted value => some value

/-- The lexeme as the canonical text of a condition has it. -/
def canonical : Lexeme → List Char
  | word .comma => [',', ' ']
  | x => x.chars

/-- The token of a lexeme that starts after `n` characters. -/
def token (x : Lexeme) (n : Nat) : Token :=
  ⟨x.kind, String.ofList x.chars, n, n + x.chars.length⟩

end Lexeme

/-- The lexeme that a token was read from. -/
def Token.lexeme (t : Token) : Lexeme :=
  if t.kind = .value then .quoted t.unquoted else .word t.kind

namespace Condition

/-- The lexemes of a condition, from left to right. -/
def lexemes : Condition → List Lexeme
  | join c left right =>
    .word (.connective c) :: .word .opening ::
      (left.lexemes ++ .word .comma :: (right.lexemes ++ [.word .closing]))
  | negate inner => .word .negation :: .word .opening :: (inner.lexemes ++ [.word .closing])
  | test c attr value =>
    [.word (.comparison c), .word .opening, .word (.attr attr), .word .comma, .quoted value,
      .word .closing]

end Condition

/-- A run of spaces, possibly empty. -/
def Spaces (cs : List Char) : Prop := ∀ c ∈ cs, isSpace c = true

/-- The text is the lexemes one after the other, with runs of spaces before, between and
after them. -/
inductive Written : List Lexeme → List Char → Prop where
  | nil {g} : Spaces g → Written [] g
  | cons {g x xs cs} : Spaces g → Written xs cs → Written (x :: xs) (g ++ (x.chars ++ cs))

/-! ## The words of the lexicon -/

namespace Kind

/-- The kinds that have only one lexeme. -/
def words : List Kind :=
  (Lexicon.standard.map Prod.fst).filter hasOneLexeme

theorem mem_words {k : Kind} (h : k.hasOneLexeme = true) : k ∈ words := by
  cases k with
  | attr a => cases a <;> decide
  | connective c => cases c <;> decide
  | comparison c => cases c <;> decide
  | negation | comma | opening | closing => decide
  | space | value | illegal | start | stop => cases h

end Kind

theorem mem_standard_iff {k : Kind} {m : Matcher} :
    (k, m) ∈ Lexicon.standard ↔
      (k.hasOneLexeme = true ∧ m = .literal k.display) ∨ (k = .space ∧ m = .spaces) ∨
        (k = .value ∧ m = .quoted) := by
  constructor
  · have key : ∀ e ∈ Lexicon.standard, (e.1.hasOneLexeme = true ∧ e.2 = .literal e.1.display) ∨
        (e.1 = .space ∧ e.2 = .spaces) ∨ (e.1 = .value ∧ e.2 = .quoted) := by decide
    exact key (k, m)
  · intro h
    obtain ⟨hk, rfl⟩ | ⟨rfl, rfl⟩ | ⟨rfl, rfl⟩ := h
    · have key : ∀ k ∈ Kind.words, (k, Matcher.literal k.display) ∈ Lexicon.standard := by decide
      exact key k (Kind.mem_words hk)
    · decide
    · decide

/-! ## The characters of a lexeme -/

theorem isQuotable_iff {value : String} :
    isQuotable value = true ↔ value.toList ≠ [] ∧ ∀ c ∈ value.toList, isValueChar c = true := by
  simp [isQuotable]

/-- A run up to the first character outside a class. -/
theorem takeWhile_run {p : Char → Bool} {cs r : List Char} (hcs : ∀ c ∈ cs, p c = true)
    (hr : ∀ c ∈ r.head?, p c = false) : (cs ++ r).takeWhile p = cs := by
  rw [List.takeWhile_append_of_pos hcs]
  cases r with
  | nil => simp
  | cons c r => simp [hr c rfl]

theorem dropWhile_run {p : Char → Bool} {cs r : List Char} (hcs : ∀ c ∈ cs, p c = true)
    (hr : ∀ c ∈ r.head?, p c = false) : (cs ++ r).dropWhile p = r := by
  rw [List.dropWhile_append_of_pos hcs]
  cases r with
  | nil => simp
  | cons c r => simp [hr c rfl]

/-- Signs are the words of one character; none of them occurs in another lexeme. -/
def Kind.isSign : Kind → Bool
  | connective _ | comma | opening | closing => true
  | _ => false

theorem Kind.hasOneLexeme_of_isSign {k : Kind} (h : k.isSign = true) : k.hasOneLexeme = true := by
  cases k <;> simp_all [isSign, hasOneLexeme]

namespace Lexeme

theorem word_chars : ∀ k ∈ Kind.words, k.display.toList ≠ [] ∧
    ∀ c ∈ k.display.toList, isSpace c = false ∧ c ≠ '\'' := by
  -- as a test of each word: the decision over `c` must not run through all characters
  have key : ∀ k ∈ Kind.words, k.display.toList ≠ [] ∧
      (k.display.toList.all fun c => !isSpace c && c != '\'') = true := by decide +kernel
  intro k hk
  obtain ⟨hne, hall⟩ := key k hk
  exact ⟨hne, by simpa using hall⟩

theorem word_prefix : ∀ k ∈ Kind.words, ∀ k' ∈ Kind.words,
    k.display.toList <+: k'.display.toList →
      k = k' ∨ k = .attr .fromPartyId ∧ k' = .attr .fromPartyIdType := by
  decide +kernel

theorem sign_chars : ∀ k ∈ Kind.words, k.isSign = true → ∀ c ∈ k.display.toList,
    isValueChar c = false ∧ c ≠ '\'' ∧ ∀ k' ∈ Kind.words, c ∈ k'.display.toList → k' = k := by
  have key : ∀ k ∈ Kind.words, k.isSign = true →
      (k.display.toList.all fun c => !isValueChar c && c != '\'' &&
        Kind.words.all fun k' => !k'.display.toList.contains c || k' == k) = true := by
    decide +kernel
  intro k hk hsign c hc
  have hall := List.all_eq_true.1 (key k hk hsign) c hc
  simp only [Bool.and_eq_true, Bool.not_eq_true', bne_iff_ne, List.all_eq_true] at hall
  obtain ⟨⟨hvalue, hquote⟩, huniq⟩ := hall
  refine ⟨hvalue, hquote, fun k' hk' hc' => ?_⟩
  have := huniq k' hk'
  rw [List.contains_iff_mem.2 hc'] at this
  simpa using this

theorem not_isValueChar_quote : isValueChar '\'' = false := by decide

theorem not_isSpace_of_isValueChar {c : Char} (h : isValueChar c = true) : isSpace c = false := by
  have key : ∀ n < 14, 9 ≤ n → isValueChar (Char.ofNat n) = false := by decide
  refine Bool.eq_false_iff.2 fun hs => ?_
  simp only [isSpace, Bool.or_eq_true, beq_iff_eq, Bool.and_eq_true, decide_eq_true_eq] at hs
  rcases hs with rfl | ⟨hlo, hhi⟩
  · cases h
  · have := key c.toNat (by omega) hlo
    rw [Char.ofNat_toNat, h] at this
    cases this

theorem chars_ne_nil {x : Lexeme} (hx : x.Readable) : x.chars ≠ [] := by
  cases x with
  | word k => exact (word_chars k (Kind.mem_words hx)).1
  | quoted value => simp [chars]

/-- Spaces and the ends of a text are no lexemes. -/
theorem kind_ne {k : Kind} {x : Lexeme} (hx : x.Readable) (hk : k.hasOneLexeme = false)
    (hv : k ≠ .value) : x.kind ≠ k := by
  intro h
  subst h
  cases x with
  | word k => exact Bool.false_ne_true (hk.symm.trans hx)
  | quoted value => exact hv rfl

theorem eq_word {x : Lexeme} {k : Kind} (h : x.kind = k) (hk : k ≠ .value) : x = .word k := by
  cases x with
  | word k' => exact congrArg word h
  | quoted v => exact absurd h.symm hk

/-- No space stands inside a lexeme. -/
theorem not_isSpace_of_mem {x : Lexeme} (hx : x.Readable) {c : Char} (hc : c ∈ x.chars) :
    isSpace c = false := by
  cases x with
  | word k => exact ((word_chars k (Kind.mem_words hx)).2 c hc).1
  | quoted value =>
    simp only [chars, List.mem_cons, List.mem_append, List.not_mem_nil, or_false] at hc
    rcases hc with rfl | hc | rfl
    · decide
    · exact not_isSpace_of_isValueChar ((isQuotable_iff.1 hx).2 c hc)
    · decide

/-- A sign in a lexeme is the whole lexeme. -/
theorem eq_word_of_mem {k : Kind} {x : Lexeme} {c : Char} (hk : k.isSign = true)
    (hc : k.display.toList = [c]) (hx : x.Readable) (hm : c ∈ x.chars) : x = word k := by
  have hw : k ∈ Kind.words := Kind.mem_words (Kind.hasOneLexeme_of_isSign hk)
  obtain ⟨hv, hq, huniq⟩ := sign_chars k hw hk c (by simp [hc])
  cases x with
  | word k' => rw [huniq k' (Kind.mem_words hx) hm]
  | quoted value =>
    simp only [chars, List.mem_cons, List.mem_append, List.not_mem_nil, or_false] at hm
    rcases hm with rfl | hm | rfl
    · exact absurd rfl hq
    · rw [(isQuotable_iff.1 hx).2 c hm] at hv; cases hv
    · exact absurd rfl hq

/-- Of two readable lexemes one is the beginning of the other only if they are the same;
the one exception is the attribute whose name begins another one's. -/
theorem eq_of_chars_prefix {x y : Lexeme} (hx : x.Readable) (hy : y.Readable)
    (h : x.chars <+: y.chars) :
    x = y ∨ x = word (.attr .fromPartyId) ∧ y = word (.attr .fromPartyIdType) := by
  cases x with
  | word k =>
    have hk := word_chars k (Kind.mem_words hx)
    cases y with
    | word k' =>
      rcases word_prefix k (Kind.mem_words hx) k' (Kind.mem_words hy) h with rfl | ⟨rfl, rfl⟩
      · exact .inl rfl
      · exact .inr ⟨rfl, rfl⟩
    | quoted value =>
      obtain ⟨c, cs, hcs⟩ := List.exists_cons_of_ne_nil hk.1
      simp only [chars, hcs, List.cons_prefix_cons] at h
      exact absurd h.1 (hk.2 c (by simp [hcs])).2
  | quoted value =>
    cases y with
    | word k =>
      have hk := (word_chars k (Kind.mem_words hy)).2 '\'' (h.subset (by simp [chars]))
      exact absurd rfl hk.2
    | quoted value' =>
      obtain ⟨rest, h⟩ := h
      simp only [chars, List.cons_append, List.append_assoc, List.cons.injEq, true_and,
        List.nil_append] at h
      have hx' := takeWhile_run (isQuotable_iff.1 hx).2 (r := '\'' :: rest)
        (by simp [not_isValueChar_quote])
      have hy' := takeWhile_run (isQuotable_iff.1 hy).2 (r := ['\''])
        (by simp [not_isValueChar_quote])
      rw [h, hy'] at hx'
      exact .inl (by rw [String.toList_inj.1 hx'])

end Lexeme

/-! ## Written texts -/

theorem Spaces.nil : Spaces [] := fun _ hc => nomatch hc

theorem Spaces.append {cs ds : List Char} (hc : Spaces cs) (hd : Spaces ds) :
    Spaces (cs ++ ds) := by
  intro c h
  rcases List.mem_append.1 h with h | h
  · exact hc c h
  · exact hd c h

/-- Where an element of a concatenation stands: in the second part, or else in the first. -/
theorem append_eq_append_cons {α : Type} {l r cs ds : List α} {c : α}
    (h : l ++ r = cs ++ c :: ds) :
    (∃ b, cs = l ++ b ∧ r = b ++ c :: ds) ∨ ∃ b, l = cs ++ c :: b ∧ ds = b ++ r := by
  rcases List.append_eq_append_iff.1 h with ⟨b, rfl, hb⟩ | ⟨b, rfl, hb⟩
  · exact .inl ⟨b, rfl, hb⟩
  · cases b with
    | nil => exact .inl ⟨[], by simp, by simpa using hb.symm⟩
    | cons d b =>
      simp only [List.cons_append, List.cons.injEq] at hb
      obtain ⟨rfl, rfl⟩ := hb
      exact .inr ⟨b, rfl, rfl⟩

namespace Written

variable {x : Lexeme} {xs ys : List Lexeme} {cs ds g : List Char}

theorem spaces_append (hg : Spaces g) (h : Written xs cs) : Written xs (g ++ cs) := by
  cases h with
  | nil hcs => exact .nil (hg.append hcs)
  | cons hg' h => rw [← List.append_assoc]; exact .cons (hg.append hg') h

theorem append (hx : Written xs cs) (hy : Written ys ds) : Written (xs ++ ys) (cs ++ ds) := by
  induction hx with
  | nil hg => exact hy.spaces_append hg
  | cons hg _ ih => simp only [List.append_assoc]; exact .cons hg ih

/-- A lexeme right in front of a written text. -/
theorem lexeme (h : Written xs cs) : Written (x :: xs) (x.chars ++ cs) :=
  .cons .nil h

theorem single (x : Lexeme) : Written [x] x.chars := by
  simpa using (Written.nil .nil).lexeme (x := x)

theorem canonical (xs : List Lexeme) : Written xs (xs.flatMap Lexeme.canonical) := by
  induction xs with
  | nil => exact .nil .nil
  | cons x xs ih =>
    rw [List.flatMap_cons]
    by_cases hx : x = .word .comma
    · subst hx
      exact (ih.spaces_append (g := [' ']) (by simp [Spaces, isSpace])).lexeme (x := .word .comma)
    · have hchars : x.canonical = x.chars := by unfold Lexeme.canonical; split <;> simp_all
      rw [hchars]
      exact ih.lexeme

theorem chars_subset (h : Written xs cs) (hx : x ∈ xs) : x.chars ⊆ cs := by
  induction h with
  | nil => cases hx
  | cons _ _ ih =>
    intro c hc
    cases hx with
    | head => simp [hc]
    | tail _ hx => simp [ih hx hc]

/-- A sign in a written text is a lexeme of its own: what stands before it and what stands
after it are written texts too. -/
theorem split_at {k : Kind} {c : Char} (hk : k.isSign = true) (hkc : k.display.toList = [c])
    (hr : ∀ x ∈ xs, x.Readable) (h : Written xs (cs ++ c :: ds)) :
    ∃ ys zs, xs = ys ++ .word k :: zs ∧ Written ys cs ∧ Written zs ds := by
  have hns : isSpace c = false :=
    Lexeme.not_isSpace_of_mem (x := .word k) (Kind.hasOneLexeme_of_isSign hk)
      (by simp [Lexeme.chars, hkc])
  generalize htext : cs ++ c :: ds = text at h
  induction h generalizing cs with
  | nil hg =>
    have := hg c (by simp [← htext])
    rw [hns] at this; cases this
  | @cons g x xs rest hg h ih =>
    have hx := hr x (by simp)
    -- the sign stands behind the gap, as it is no space
    rcases append_eq_append_cons htext.symm with ⟨a, rfl, ha⟩ | ⟨a, rfl, -⟩
    · rcases append_eq_append_cons ha with ⟨b, rfl, hb⟩ | ⟨b, hxb, rfl⟩
      · obtain ⟨ys, zs, rfl, hys, hzs⟩ := ih (fun y hy => hr y (by simp [hy])) hb.symm
        exact ⟨x :: ys, zs, rfl, .cons hg hys, hzs⟩
      · obtain rfl := Lexeme.eq_word_of_mem hk hkc hx (by simp [hxb])
        have hone := hkc.symm.trans hxb
        cases a with
        | nil =>
          obtain rfl : b = [] := by simpa using hone.symm
          exact ⟨[], xs, rfl, by simpa using Written.nil hg, h⟩
        | cons d a => simp at hone
    · have := hg c (by simp)
      rw [hns] at this; cases this

theorem eq_nil (hr : ∀ x ∈ xs, x.Readable) (h : Written xs []) : xs = [] := by
  cases xs with
  | nil => rfl
  | cons x xs =>
    have hsub := h.chars_subset (List.mem_cons_self (a := x))
    exact absurd (List.subset_nil.1 hsub) (Lexeme.chars_ne_nil (hr x List.mem_cons_self))

/-- A sign at the start of a written text is its first lexeme. -/
theorem split_cons {k : Kind} {c : Char} (hk : k.isSign = true) (hkc : k.display.toList = [c])
    (hr : ∀ x ∈ xs, x.Readable) (h : Written xs (c :: ds)) :
    ∃ zs, xs = .word k :: zs ∧ Written zs ds := by
  have h' : Written xs ([] ++ c :: ds) := h
  obtain ⟨ys, zs, rfl, hys, hzs⟩ := h'.split_at hk hkc hr
  obtain rfl := hys.eq_nil fun y hy => hr y (List.mem_append_left _ hy)
  exact ⟨zs, rfl, hzs⟩

/-- A sign at the end of a written text is its last lexeme. -/
theorem split_concat {k : Kind} {c : Char} (hk : k.isSign = true)
    (hkc : k.display.toList = [c]) (hr : ∀ x ∈ xs, x.Readable) (h : Written xs (cs ++ [c])) :
    ∃ ys, xs = ys ++ [.word k] ∧ Written ys cs := by
  obtain ⟨ys, zs, rfl, hys, hzs⟩ := h.split_at hk hkc hr
  obtain rfl := hzs.eq_nil fun y hy => hr y (by simp [hy])
  exact ⟨ys, rfl, hys⟩

end Written

/-! ## Written conditions -/

namespace Condition

/-- The canonical text is the lexemes one after the other, with a space after each comma. -/
theorem toList_render (e : Condition) : e.render.toList = e.lexemes.flatMap Lexeme.canonical := by
  induction e with
  | join c left right ihl ihr =>
    simp [render, lexemes, Lexeme.canonical, Lexeme.chars, Kind.display, ihl, ihr]
  | negate inner ih => simp [render, lexemes, Lexeme.canonical, Lexeme.chars, Kind.display, ih]
  | test c attr value => simp [render, lexemes, Lexeme.canonical, Lexeme.chars, Kind.display]

/-- The canonical text spells the lexemes of a condition, whatever its values are. -/
theorem written_render (e : Condition) : Written e.lexemes e.render.toList := by
  rw [toList_render]
  exact .canonical e.lexemes

theorem readable_lexemes_iff {e : Condition} :
    (∀ x ∈ e.lexemes, x.Readable) ↔ ∀ value ∈ e.values, isQuotable value = true := by
  induction e with
  | join c left right ihl ihr =>
    simp [lexemes, values, Lexeme.Readable, Kind.hasOneLexeme, or_imp, forall_and, ← ihl, ← ihr]
  | negate inner ih =>
    simp [lexemes, values, Lexeme.Readable, Kind.hasOneLexeme, or_imp, forall_and, ← ih]
  | test c attr value => simp [lexemes, values, Lexeme.Readable, Kind.hasOneLexeme]

/-- A condition is spelled with words and values alone. -/
theorem hasOneLexeme_of_mem {e : Condition} {k : Kind} (h : .word k ∈ e.lexemes) :
    k.hasOneLexeme = true := by
  induction e with
  | join c left right ihl ihr =>
    simp only [lexemes, List.mem_cons, List.mem_append, Lexeme.word.injEq, List.not_mem_nil,
      or_false] at h
    rcases h with rfl | rfl | h | rfl | h | rfl
    · rfl
    · rfl
    · exact ihl h
    · rfl
    · exact ihr h
    · rfl
  | negate inner ih =>
    simp only [lexemes, List.mem_cons, List.mem_append, Lexeme.word.injEq, List.not_mem_nil,
      or_false] at h
    rcases h with rfl | rfl | h | rfl
    · rfl
    · rfl
    · exact ih h
    · rfl
  | test c attr value =>
    simp only [lexemes, List.mem_cons, List.not_mem_nil, Lexeme.word.injEq, reduceCtorEq,
      false_or, or_false] at h
    rcases h with rfl | rfl | rfl | rfl | rfl <;> rfl

theorem opening_mem_lexemes (e : Condition) : .word .opening ∈ e.lexemes := by
  cases e <;> simp [lexemes]

end Condition

end BackendRouting
