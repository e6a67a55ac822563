/-!
Binary floating-point numbers of 64 bits, as words, and the nearest such number to a fraction. No
arithmetic of the machine is involved, so every statement about them is about natural numbers.
-/

namespace ScriptFront

/-- The word of a binary64 number: sign, eleven exponent bits, fifty-two fraction bits. -/
structure Binary64 where
  bits : UInt64
  deriving DecidableEq, Repr, Inhabited

namespace Binary64

/-- The number with its sign turned. -/
def neg (x : Binary64) : Binary64 := ⟨x.bits ^^^ 0x8000000000000000⟩

def zero : Binary64 := ⟨0⟩

def infinity : Binary64 := ⟨0x7FF0000000000000⟩

/-- The quiet value that is not a number, without payload. -/
def notANumber : Binary64 := ⟨0x7FF8000000000000⟩

/-- The quotient of two numbers rounded to the nearest integer; a tie goes to the even one. -/
def divRound (n d : Nat) : Nat :=
  let q := n / d
  let r := n % d
  if d < 2 * r ∨ (2 * r = d ∧ q % 2 = 1) then q + 1 else q

/-- The exponent of the last place of `n / d`: fifty-two below the first, and not below -1074. -/
def lastPlace (n d : Nat) : Int :=
  let guess : Int := (n.log2 : Int) - d.log2 - 52
  -- the guess is right or one too large
  let fits := if 0 ≤ guess then d <<< (guess.toNat + 52) ≤ n
    else d <<< 52 ≤ n <<< (-guess).toNat
  max (if fits then guess else guess - 1) (-1074)

/--
The number nearest to the fraction `n / d`. Its word is the significand counted from the exponent of
its last place on, so that a carry out of the significand raises the exponent by itself.
-/
def ofFraction (n d : Nat) : Binary64 :=
  if n = 0 then zero
  else
    let q := lastPlace n d
    let m := if 0 ≤ q then divRound n (d <<< q.toNat) else divRound (n <<< (-q).toNat) d
    let word := ((q + 1074).toNat <<< 52) + m
    if 0x7FF0000000000000 ≤ word then infinity else ⟨word.toUInt64⟩

end Binary64
end ScriptFront
