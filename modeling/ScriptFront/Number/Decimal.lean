import ScriptFront.Number.Binary64

/-!
Decimal numerals and the numbers they denote.
-/

namespace ScriptFront
namespace Decimal

/-- The number that a list of decimal digits spells. -/
def ofDigits (ds : List Char) : Nat :=
  ds.foldl (fun n c => 10 * n + (c.toNat - '0'.toNat)) 0

/--
The number nearest to `n * 10 ^ e`. Exponents beyond the range of all numbers with so many digits
are decided without computing the power.
-/
def toBinary64 (n : Nat) (digits : Nat) (e : Int) : Binary64 :=
  if n = 0 then .zero
  else if 400 < e then .infinity
  else if e + digits < -400 then .zero
  else if 0 ≤ e then .ofFraction (n * Nat.pow 10 e.toNat) 1
  else .ofFraction n (Nat.pow 10 (-e).toNat)

/-- The exponent after an `e` or `E`: digits with an optional sign, to the end of the text. -/
def exponent? : List Char → Option Int
  | '-' :: ds => if ds ≠ [] ∧ ds.all Char.isDigit then some (-(ofDigits ds : Int)) else none
  | '+' :: ds => if ds ≠ [] ∧ ds.all Char.isDigit then some (ofDigits ds) else none
  | ds => if ds ≠ [] ∧ ds.all Char.isDigit then some (ofDigits ds) else none

/-- What may follow the digits of a numeral: nothing or an exponent. -/
def scale? : List Char → Option Int
  | [] => some 0
  | c :: cs => if c = 'e' ∨ c = 'E' then exponent? cs else none

/-- The digits after an optional point, and what follows them. -/
def fraction : List Char → List Char × List Char
  | '.' :: cs => (cs.takeWhile Char.isDigit, cs.dropWhile Char.isDigit)
  | cs => ([], cs)

/-- A numeral without sign: digits with at most one point, at least one digit, and an exponent. -/
def unsigned? (cs : List Char) : Option Binary64 :=
  let whole := cs.takeWhile Char.isDigit
  let (part, rest) := fraction (cs.dropWhile Char.isDigit)
  if whole = [] ∧ part = [] then none
  else (scale? rest).map fun e =>
    toBinary64 (ofDigits (whole ++ part)) (whole.length + part.length) (e - part.length)

/-- The names of values that have no digits, in letters of any case. -/
def named? (cs : List Char) : Option Binary64 :=
  let w := cs.map Char.toLower
  if w = "inf".toList ∨ w = "infinity".toList then some .infinity
  else if w = "nan".toList then some .notANumber
  else none

/-- A numeral or a named value without sign. -/
def magnitude? (cs : List Char) : Option Binary64 :=
  (named? cs).or (unsigned? cs)

/-- The number that a text denotes, correctly rounded; the whole text has to be a number. -/
def parse? (s : String) : Option Binary64 :=
  match s.toList with
  | '-' :: cs => (magnitude? cs).map .neg
  | '+' :: cs => magnitude? cs
  | cs => magnitude? cs

end Decimal
end ScriptFront
