import BackendRouting.Proofs.ReadBack

/-!
# Joined texts

The text `&(A,B)` of two texts `A` and `B`, which need not be patterns. Its signs are
lexemes of their own, so whatever `&(A,B)` spells is cut at the comma between `A` and `B`.
That comma need not be the one between the two sides of the conjunction, though: the two
texts may be the parts of a conjunction that was cut at a comma inside one of its sides
(`Interlocked`). The number of open brackets tells such parts from conditions.

* `written_joined_iff`: what `&(A,B)` spells is made of what `A` and what `B` spell.
* `spelledBy_joined_iff`: `&(A,B)` spells the conjunctions of what `A` and `B` spell, and
  those whose parts `A` and `B` are.
* `Interlocked.not_spelledBy`: neither part spells a condition by itself.
-/
namespace BackendRouting

variable {A B : String}

/-- The text of two joined patterns. -/
def joined (A B : String) : String := "&(" ++ A ++ "," ++ B ++ ")"

/-- The two texts are the parts of the conjunction of `l` and `r` when it is cut at another
comma than the one between `l` and `r`. -/
structure Interlocked (l r : Condition) (A B : String) : Prop where
  left_quotable : ∀ value ∈ l.values, Pattern.isQuotable value = true
  right_quotable : ∀ value ∈ r.values, Pattern.isQuotable value = true
  cut : ∃ before after : List Lexeme,
    before ++ .word .comma :: after = l.lexemes ++ .word .comma :: r.lexemes ∧
      before ≠ l.lexemes ∧ Written before A.toList ∧ Written after B.toList

/-! ## Brackets -/

/-- How a lexeme changes the number of open brackets. -/
def Lexeme.depth : Lexeme → Int
  | word .opening => 1
  | word .closing => -1
  | _ => 0

/-- The number of brackets that are open after the lexemes. -/
def balance : List Lexeme → Int
  | [] => 0
  | x :: xs => x.depth + balance xs

/-- Every comma stands inside a bracket, when `d` brackets are open at the start. -/
def CommasInside : Int → List Lexeme → Prop
  | _, [] => True
  | d, x :: xs => (x = .word .comma → 1 ≤ d) ∧ CommasInside (d + x.depth) xs

theorem balance_append (xs ys : List Lexeme) : balance (xs ++ ys) = balance xs + balance ys := by
  induction xs with
  | nil => simp [balance]
  | cons x xs ih => simp only [List.cons_append, balance, ih]; omega

theorem commasInside_append {d : Int} {xs ys : List Lexeme} :
    CommasInside d (xs ++ ys) ↔ CommasInside d xs ∧ CommasInside (d + balance xs) ys := by
  induction xs generalizing d with
  | nil => simp [CommasInside, balance]
  | cons x xs ih =>
    simp only [List.cons_append, CommasInside, balance, ih, and_assoc, Int.add_assoc]

theorem balance_lexemes (e : Condition) : balance e.lexemes = 0 := by
  induction e with
  | join c left right ihl ihr =>
    simp [Condition.lexemes, balance, balance_append, Lexeme.depth, ihl, ihr]
  | negate inner ih => simp [Condition.lexemes, balance, balance_append, Lexeme.depth, ih]
  | test c attr value => simp [Condition.lexemes, balance, Lexeme.depth]

theorem commasInside_lexemes (e : Condition) : ∀ d : Int, 0 ≤ d → CommasInside d e.lexemes := by
  induction e with
  | join c left right ihl ihr =>
    intro d hd
    simp [Condition.lexemes, CommasInside, commasInside_append, Lexeme.depth, balance_lexemes,
      ihl (d + 1) (by omega), ihr (d + 1) (by omega)]
    omega
  | negate inner ih =>
    intro d hd
    simp [Condition.lexemes, CommasInside, commasInside_append, Lexeme.depth,
      ih (d + 1) (by omega)]
  | test c attr value =>
    intro d hd
    simp [Condition.lexemes, CommasInside, Lexeme.depth]
    omega

/-- Before a comma in a condition there are more opening than closing brackets, and behind
it there are fewer. -/
theorem balance_of_comma {e : Condition} {before after : List Lexeme}
    (h : e.lexemes = before ++ .word .comma :: after) :
    1 ≤ balance before ∧ balance after ≤ -1 := by
  have hinside := commasInside_lexemes e 0 (Int.le_refl 0)
  have hzero := balance_lexemes e
  rw [h] at hinside hzero
  have hopen := (commasInside_append.1 hinside).2.1 rfl
  simp only [balance_append, balance, Lexeme.depth] at hzero
  omega

/-- The same holds of the two sides of a conjunction at any comma but the one in between. -/
theorem balance_of_cut {l r : Condition} {before after : List Lexeme}
    (h : before ++ .word .comma :: after = l.lexemes ++ .word .comma :: r.lexemes)
    (hne : before ≠ l.lexemes) : 1 ≤ balance before ∧ balance after ≤ -1 := by
  have hl := balance_lexemes l
  have hr := balance_lexemes r
  have hcomma : (Lexeme.word .comma).depth = 0 := rfl
  obtain ⟨b, hb, hafter⟩ | ⟨b, rfl, hafter⟩ := append_eq_append_cons h
  · cases b with
    | nil => exact absurd (by simpa using hb.symm) hne
    | cons x b =>
      simp only [List.cons_append, List.cons.injEq] at hafter
      obtain ⟨rfl, rfl⟩ := hafter
      have hcut := balance_of_comma hb
      simp only [balance_append, balance] at hcut ⊢
      omega
  · have hcut := balance_of_comma hafter
    simp only [balance_append, balance] at hcut ⊢
    omega

/-! ## What a joined text spells -/

theorem toList_joined (A B : String) :
    (joined A B).toList = '&' :: '(' :: (A.toList ++ ',' :: (B.toList ++ [')'])) := by
  simp [joined]

/-- What `&(A,B)` spells is cut at its own brackets and at the comma between `A` and `B`. -/
theorem written_joined_iff {xs : List Lexeme} (hr : ∀ x ∈ xs, x.Readable) :
    Written xs (joined A B).toList ↔
      ∃ before after, Written before A.toList ∧ Written after B.toList ∧
        xs = .word (.connective .and) :: .word .opening ::
          ((before ++ .word .comma :: after) ++ [.word .closing]) := by
  rw [toList_joined]
  constructor
  · intro h
    obtain ⟨us, rfl, hus⟩ := h.split_cons (k := .connective .and) rfl (by decide) hr
    obtain ⟨-, hr⟩ := List.forall_mem_cons.1 hr
    obtain ⟨vs, rfl, hvs⟩ := hus.split_cons (k := .opening) rfl (by decide) hr
    obtain ⟨-, hr⟩ := List.forall_mem_cons.1 hr
    obtain ⟨before, ws, rfl, hA, hws⟩ := hvs.split_at (k := .comma) rfl (by decide) hr
    obtain ⟨-, hr⟩ := List.forall_mem_cons.1 (List.forall_mem_append.1 hr).2
    obtain ⟨after, rfl, hB⟩ := hws.split_concat (k := .closing) rfl (by decide) hr
    exact ⟨before, after, hA, hB, by simp⟩
  · intro h
    obtain ⟨before, after, hA, hB, rfl⟩ := h
    have hcomma : Written (.word .comma :: after) (',' :: B.toList) := hB.lexeme
    have hclosing := (hA.append hcomma).append (.single (.word .closing))
    rw [List.append_assoc A.toList] at hclosing
    exact Written.lexeme (x := .word (.connective .and))
      (Written.lexeme (x := .word .opening) hclosing)

theorem Interlocked.readable {l r : Condition} (h : Interlocked l r A B) :
    ∀ x ∈ l.lexemes ++ .word .comma :: r.lexemes, x.Readable := by
  have hl := Condition.readable_lexemes_iff.2 h.left_quotable
  have hr := Condition.readable_lexemes_iff.2 h.right_quotable
  exact List.forall_mem_append.2 ⟨hl, List.forall_mem_cons.2 ⟨rfl, hr⟩⟩

/-- Neither of two interlocked texts spells a condition: in the one a bracket stays open, in
the other one is closed that was not opened. -/
theorem Interlocked.not_spelledBy {l r : Condition} (h : Interlocked l r A B) (e : Condition) :
    ¬ e.SpelledBy A ∧ ¬ e.SpelledBy B := by
  have hread := h.readable
  obtain ⟨before, after, hcut, hne, hA, hB⟩ := h.cut
  obtain ⟨hopen, hclose⟩ := balance_of_cut hcut hne
  have hzero := balance_lexemes e
  rw [← hcut] at hread
  obtain ⟨hbefore, hafter⟩ := List.forall_mem_append.1 hread
  constructor
  · intro he
    rw [Written.unique he.readable hbefore he.written hA] at hzero
    omega
  · intro he
    rw [Written.unique he.readable (List.forall_mem_cons.1 hafter).2 he.written hB] at hzero
    omega

theorem lexemes_join (c : Connective) (l r : Condition) : (Condition.join c l r).lexemes =
    .word (.connective c) :: .word .opening ::
      ((l.lexemes ++ .word .comma :: r.lexemes) ++ [.word .closing]) := by
  simp [Condition.lexemes]

theorem quotable_join {c : Connective} {l r : Condition} :
    (∀ value ∈ (Condition.join c l r).values, Pattern.isQuotable value = true) ↔
      (∀ value ∈ l.values, Pattern.isQuotable value = true) ∧
        ∀ value ∈ r.values, Pattern.isQuotable value = true :=
  List.forall_mem_append

/-- A joined text spells the conjunction of two conditions that its parts spell, or one that
its parts are cut from. -/
theorem spelledBy_joined_iff {e : Condition} :
    e.SpelledBy (joined A B) ↔ ∃ l r, e = .join .and l r ∧
      ((l.SpelledBy A ∧ r.SpelledBy B) ∨ Interlocked l r A B) := by
  constructor
  · intro h
    obtain ⟨before, after, hA, hB, hxs⟩ := (written_joined_iff h.readable).1 h.written
    cases e with
    | join c l r =>
      obtain ⟨hl, hr⟩ := quotable_join.1 h.quotable
      rw [lexemes_join] at hxs
      simp only [List.cons.injEq, Lexeme.word.injEq, Kind.connective.injEq, true_and,
        List.append_cancel_right_eq] at hxs
      obtain ⟨rfl, hcut⟩ := hxs
      refine ⟨l, r, rfl, ?_⟩
      by_cases hne : before = l.lexemes
      · subst hne
        obtain rfl : r.lexemes = after := by simpa using hcut
        exact .inl ⟨⟨hl, hA⟩, ⟨hr, hB⟩⟩
      · exact .inr ⟨hl, hr, before, after, hcut.symm, hne, hA, hB⟩
    | negate inner => simp [Condition.lexemes] at hxs
    | test c attr value => simp [Condition.lexemes] at hxs
  · intro h
    obtain ⟨l, r, rfl, h | h⟩ := h
    · have hq := quotable_join (c := .and).2 ⟨h.1.quotable, h.2.quotable⟩
      refine ⟨hq, (written_joined_iff (Condition.readable_lexemes_iff.2 hq)).2 ?_⟩
      exact ⟨l.lexemes, r.lexemes, h.1.written, h.2.written, lexemes_join ..⟩
    · have hq := quotable_join (c := .and).2 ⟨h.left_quotable, h.right_quotable⟩
      refine ⟨hq, (written_joined_iff (Condition.readable_lexemes_iff.2 hq)).2 ?_⟩
      obtain ⟨before, after, hcut, -, hA, hB⟩ := h.cut
      exact ⟨before, after, hA, hB, by rw [lexemes_join, hcut]⟩

end BackendRouting
