import BackendRouting.Proofs.Lexing

/-!
# Reading a condition from lexemes

The state of a reading determines what has been read: the open conditions and the place
inside the innermost one spell the lexemes taken so far (`Reading.lexemes`). Each token
taken adds its lexeme, so a reading that ends in a condition has read its lexemes and
nothing else. The other way round, the lexemes of a condition lead any reading that
expects a condition to the place after it.

* `lexemes_take?`: a token taken adds its lexeme to what has been read.
* `after?_lexemes`: the lexemes of a condition are read as that condition, whatever is open.
* `ofTokens_eq_ok_iff`: tokens are read as `e` exactly if their lexemes are those of `e`.
-/
namespace BackendRouting

def Operator.lexeme : Operator → Lexeme
  | connective c => .word (.connective c)
  | comparison c => .word (.comparison c)
  | negation => .word .negation

/-- What was read of an open condition before the operand that is being read. -/
def Frame.lexemes : Frame → List Lexeme
  | left c => [.word (.connective c), .word .opening]
  | right c e => .word (.connective c) :: .word .opening :: (e.lexemes ++ [.word .comma])
  | negated => [.word .negation, .word .opening]

/-- What was read inside the innermost open condition. -/
def Place.lexemes : Place → List Lexeme
  | beforeOperator => []
  | afterOperator operator => [operator.lexeme]
  | beforeAttr c => [.word (.comparison c), .word .opening]
  | afterAttr c attr => [.word (.comparison c), .word .opening, .word (.attr attr)]
  | beforeValue c attr =>
    [.word (.comparison c), .word .opening, .word (.attr attr), .word .comma]
  | afterValue c attr value =>
    [.word (.comparison c), .word .opening, .word (.attr attr), .word .comma, .quoted value]
  | afterCondition e => e.lexemes

namespace Reading

/-- All that has been read, from left to right. -/
def lexemes (r : Reading) : List Lexeme :=
  r.frames.reverse.flatMap Frame.lexemes ++ r.place.lexemes

variable {r next : Reading} {t : Token} {e : Condition}

theorem lexemes_take? (h : r.take? t = some next) : next.lexemes = r.lexemes ++ [t.lexeme] := by
  obtain ⟨frames, place⟩ := r
  unfold take? at h
  split at h <;> cases h <;>
    simp_all [lexemes, Token.lexeme, Place.lexemes, Frame.lexemes, Operator.lexeme,
      Condition.lexemes]

theorem lexemes_of_condition? (h : r.condition? = some e) : r.lexemes = e.lexemes := by
  unfold condition? at h
  split at h
  · rename_i hframes hplace
    cases h
    simp [lexemes, hframes, hplace, Place.lexemes]
  · cases h

theorem condition?_finish {n : Nat} : r.finish n = .ok e ↔ r.condition? = some e := by
  unfold finish
  split <;> simp_all

/-- What is read to the end as `e` adds up to the lexemes of `e`. -/
theorem lexemes_of_run {n : Nat} {ts : List Token} (h : r.run n ts = .ok e) :
    r.lexemes ++ Token.lexemesOf ts = e.lexemes := by
  induction ts generalizing r n with
  | nil => simpa using lexemes_of_condition? (condition?_finish.1 h)
  | cons t ts ih =>
    rw [run] at h
    by_cases hstop : t.kind = .stop
    · rw [if_pos hstop] at h
      simpa [Token.lexemesOf_stop hstop] using lexemes_of_condition? (condition?_finish.1 h)
    · rw [if_neg hstop] at h
      cases htake : r.take? t with
      | none => rw [htake] at h; cases h
      | some next =>
        rw [htake] at h
        rw [← ih h, lexemes_take? htake, Token.lexemesOf_cons hstop, List.append_assoc]
        rfl

/-! ## From lexemes to the condition -/

/-- The reading after one more lexeme. -/
def next? (r : Reading) (x : Lexeme) : Option Reading :=
  r.take? (x.token 0)

/-- The reading after more lexemes. -/
def after? (r : Reading) (xs : List Lexeme) : Option Reading :=
  xs.foldlM next? r

@[simp] theorem after?_nil : r.after? [] = some r := rfl

@[simp] theorem after?_cons (x : Lexeme) (xs : List Lexeme) :
    r.after? (x :: xs) = (r.next? x).bind (·.after? xs) := rfl

theorem after?_append (xs ys : List Lexeme) :
    r.after? (xs ++ ys) = (r.after? xs).bind (·.after? ys) :=
  List.foldlM_append ..

@[simp] theorem unquoted_token (value : String) (n : Nat) :
    ((Lexeme.quoted value).token n).unquoted = value := by
  simp [Lexeme.token, Lexeme.chars, Token.unquoted]

/-- Of a token only the kind counts, and of a value what stands between its quotes. -/
theorem take?_congr {t t' : Token} (hk : t.kind = t'.kind)
    (hv : t.kind = .value → t.unquoted = t'.unquoted) : r.take? t = r.take? t' := by
  unfold take?
  rw [← hk]
  split <;> simp_all

theorem take?_eq_next? (r : Reading) (t : Token) : r.take? t = r.next? t.lexeme := by
  by_cases hk : t.kind = .value
  · have hl : t.lexeme = .quoted t.unquoted := if_pos hk
    rw [next?, hl]
    exact take?_congr hk fun _ => (unquoted_token t.unquoted 0).symm
  · have hl : t.lexeme = .word t.kind := if_neg hk
    rw [next?, hl]
    exact take?_congr rfl fun h => absurd h hk

/-- The lexemes of a condition are read as that condition, whatever is open around it. -/
theorem after?_lexemes (e : Condition) (frames : List Frame) :
    after? ⟨frames, .beforeOperator⟩ e.lexemes = some ⟨frames, .afterCondition e⟩ := by
  induction e generalizing frames with
  | join c left right ihl ihr =>
    simp [Condition.lexemes, after?_append, next?, take?, Lexeme.token, Lexeme.kind, ihl, ihr]
  | negate inner ih =>
    simp [Condition.lexemes, after?_append, next?, take?, Lexeme.token, Lexeme.kind, ih]
  | test c attr value =>
    have hvalue := unquoted_token value 0
    simp_all [Condition.lexemes, next?, take?, Lexeme.token, Lexeme.kind]

theorem run_of_after? {n : Nat} {ts : List Token}
    (h : r.after? (Token.lexemesOf ts) = some next) (hc : next.condition? = some e) :
    r.run n ts = .ok e := by
  induction ts generalizing r n with
  | nil =>
    obtain rfl : r = next := by simpa using h
    exact condition?_finish.2 hc
  | cons t ts ih =>
    rw [run]
    by_cases hstop : t.kind = .stop
    · obtain rfl : r = next := by simpa [Token.lexemesOf_stop hstop] using h
      rw [if_pos hstop]
      exact condition?_finish.2 hc
    · rw [Token.lexemesOf_cons hstop, after?_cons, ← take?_eq_next?] at h
      obtain ⟨r', htake, h⟩ := Option.bind_eq_some_iff.1 h
      rw [if_neg hstop, htake]
      exact ih h

end Reading

/-- Tokens are read as a condition exactly if their lexemes are those of the condition. -/
theorem ofTokens_eq_ok_iff {ts : List Token} {e : Condition} :
    Condition.ofTokens ts = .ok e ↔ Token.lexemesOf ts = e.lexemes := by
  constructor
  · intro h
    simpa [Reading.lexemes, Reading.initial, Place.lexemes] using Reading.lexemes_of_run h
  · intro h
    have hafter := Reading.after?_lexemes e []
    rw [← h] at hafter
    exact Reading.run_of_after? hafter rfl

end BackendRouting
