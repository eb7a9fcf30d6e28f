import BackendRouting.Pattern.Token
import BackendRouting.Text.Blank

/-!
# The lexicon and the tokens of a text

A lexicon lists kinds of token with their matchers, in order of precedence: the
first entry that matches wins. `Lexicon.standard` is the lexicon of patterns; there
`FromPartyIdType` has to come before `FromPartyId`, which is its beginning.

* `length_drop_lexeme_lt`: a lexeme is never empty, so reading goes on with less text.
-/
namespace BackendRouting

inductive Matcher where
  | literal (word : String)
  | spaces
  | quoted
  deriving DecidableEq, Repr

/-- The lexeme at the start of the text. A literal matches itself, `spaces` a whole
run of them, `quoted` a non-empty run of value characters between two quotes. -/
def Matcher.lexeme? : Matcher → List Char → Option (List Char)
  | literal word, cs => if word.toList.isPrefixOf cs then some word.toList else none
  | spaces, cs => some (cs.takeWhile Pattern.isSpace)
  | quoted, '\'' :: cs =>
    let body := cs.takeWhile Pattern.isValueChar
    if body ≠ [] ∧ (cs.dropWhile Pattern.isValueChar).head? = some '\'' then
      some ('\'' :: body ++ ['\''])
    else none
  | quoted, _ => none

abbrev Lexicon := List (Kind × Matcher)

namespace Lexicon

/-- The first entry that matches at the start of the text, with its lexeme; an
empty lexeme is no match. -/
def first? (lexicon : Lexicon) (cs : List Char) : Option (Kind × List Char) :=
  lexicon.findSome? fun (kind, matcher) =>
    (matcher.lexeme? cs).bind fun w => if w = [] then none else some (kind, w)

theorem ne_nil_of_first? {lexicon : Lexicon} {cs : List Char} {kind : Kind} {w : List Char}
    (h : lexicon.first? cs = some (kind, w)) : w ≠ [] := by
  obtain ⟨⟨k, m⟩, -, h⟩ := List.exists_of_findSome?_eq_some h
  obtain ⟨v, -, h⟩ := Option.bind_eq_some_iff.1 h
  split at h
  · cases h
  · cases h; assumption

theorem first?_nil (lexicon : Lexicon) : lexicon.first? [] = none := by
  refine List.findSome?_eq_none_iff.2 fun ⟨_, m⟩ _ => ?_
  cases m <;> simp [Matcher.lexeme?, List.isPrefixOf_iff_prefix]

theorem length_drop_lexeme_lt {lexicon : Lexicon} {cs : List Char} {kind : Kind} {w : List Char}
    (h : lexicon.first? cs = some (kind, w)) : (cs.drop w.length).length < cs.length := by
  have hw := List.length_pos_iff.2 (ne_nil_of_first? h)
  cases cs with
  | nil => simp [first?_nil] at h
  | cons c cs => simp only [List.length_drop, List.length_cons]; omega

/-- The tokens of a text that starts `offset` characters into the pattern. Spaces
are dropped. Where nothing matches, all that is left is one illegal token and
reading stops. -/
def scan (lexicon : Lexicon) (offset : Nat) (cs : List Char) : List Token :=
  match _h : lexicon.first? cs with
  | none =>
    if cs = [] then [Token.ending offset]
    else [⟨.illegal, String.ofList cs, offset, offset + cs.length⟩]
  | some (kind, w) =>
    let next := offset + w.length
    let tokens := lexicon.scan next (cs.drop w.length)
    if kind = .space then tokens else ⟨kind, String.ofList w, offset, next⟩ :: tokens
termination_by cs.length
decreasing_by exact length_drop_lexeme_lt _h

def standard : Lexicon :=
  [.serviceType, .serviceName, .finalRecipient, .fromPartyIdType, .fromPartyId, .fromPartyRole,
      .action].map (fun a => (.attr a, .literal a.name)) ++
    [(.connective .and, .literal "&"), (.connective .or, .literal "|"), (.negation, .literal "not"),
      (.comparison .equals, .literal "equals"), (.comparison .startsWith, .literal "startswith"),
      (.comma, .literal ","), (.opening, .literal "("), (.closing, .literal ")"),
      (.space, .spaces), (.value, .quoted)]

/-- The tokens of a pattern; blank text has none. The last token, and only the last,
is the end of the pattern or an illegal token. -/
def tokens? (lexicon : Lexicon) (text : String) : Option (List Token) :=
  if Text.isBlank text then none else some (lexicon.scan 0 text.toList)

end Lexicon
end BackendRouting
