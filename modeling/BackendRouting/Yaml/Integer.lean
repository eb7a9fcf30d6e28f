/-!
# Integers as they are written in documents

Decimal digits, or `0x`, `0o` or `0b` and digits of that base, with a sign in front.
Digits with a zero in front are no integer, so `007` is a text and `0` is a number.
-/
namespace BackendRouting.Yaml

/-- The value of a digit: letters of either case go on after nine. -/
def digit? (c : Char) : Option Nat :=
  if c.isDigit then some (c.toNat - '0'.toNat)
  else if 'a' ≤ c ∧ c ≤ 'z' then some (c.toNat - 'a'.toNat + 10)
  else if 'A' ≤ c ∧ c ≤ 'Z' then some (c.toNat - 'A'.toNat + 10)
  else none

/-- A number with one digit more; the digit has to be below the base. -/
def appendDigit? (base n : Nat) (c : Char) : Option Nat :=
  (digit? c).bind fun d => if d < base then some (base * n + d) else none

/-- One digit or more. -/
def natural? (base : Nat) (cs : List Char) : Option Nat :=
  if cs = [] then none else cs.foldlM (appendDigit? base) 0

/-- An integer without its sign. -/
def magnitude? : List Char → Option Nat
  | '0' :: 'x' :: cs => natural? 16 cs
  | '0' :: 'o' :: cs => natural? 8 cs
  | '0' :: 'b' :: cs => natural? 2 cs
  | '0' :: _ :: _ => none
  | cs => natural? 10 cs

def integer? : List Char → Option Int
  | '-' :: cs => (magnitude? cs).map fun n => -n
  | '+' :: cs => (magnitude? cs).map Int.ofNat
  | cs => (magnitude? cs).map Int.ofNat

/-- An integer of 32 bits. -/
def int32? (text : String) : Option Int32 :=
  (integer? text.toList).bind fun n =>
    if Int32.minValue.toInt ≤ n ∧ n ≤ Int32.maxValue.toInt then some (Int32.ofInt n) else none

end BackendRouting.Yaml
