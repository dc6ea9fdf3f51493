/-!
# Floats as decimals

A float is written with the fewest digits that read back as the same float. The numbers that read back
form an interval around it, so the digits are found by looking at multiples of powers of ten, the
greatest power first, until a multiple lies in that interval; of two such multiples of one power the
nearer is taken.

`shortest` finds the digits and `Layout.text` decides how they are set.
-/

namespace Discussion

/-- The number digits · 10^exponent. -/
structure Decimal where
  digits : Nat
  exponent : Int
deriving DecidableEq, Repr

namespace Decimal

/-- The number that a decimal stands for. -/
def value (d : Decimal) : Rat :=
  d.digits * (10 : Rat) ^ d.exponent

/-- The numbers that are read as one float. -/
structure Cell where
  /-- The float itself. -/
  center : Rat
  /-- The least number, or the bound below all of them. -/
  lower : Rat
  /-- The greatest number, or the bound above all of them. -/
  upper : Rat
  /-- Whether the bounds themselves are read as the float. -/
  closed : Bool

namespace Cell

/-- The bit of a significand that is not stored. -/
def implicitBit : Nat := 0x10000000000000

/-- The cell of the float with the given bits; the sign is left out. An even significand takes the
bounds. Below a power of two the floats lie twice as close, unless they have no implicit bit. -/
def ofBits (bits : Nat) : Cell :=
  let stored := bits % implicitBit
  let biased := bits / implicitBit % 0x800
  let significand : Nat := if biased = 0 then stored else implicitBit + stored
  let step : Rat := (2 : Rat) ^ (Int.ofNat (max biased 1) - 1075)
  let center : Rat := significand * step
  let below := if stored = 0 ∧ 1 < biased then step / 4 else step / 2
  ⟨center, center - below, center + step / 2, significand % 2 = 0⟩

/-- Whether a number is read as the float. -/
def contains (c : Cell) (x : Rat) : Bool :=
  if c.closed then c.lower ≤ x && x ≤ c.upper else c.lower < x && x < c.upper

/-- The multiple of 10^exponent that is read as the float; of two the nearer one. -/
def on? (c : Cell) (exponent : Int) : Option Decimal :=
  let below : Decimal := ⟨(c.center / (10 : Rat) ^ exponent).floor.toNat, exponent⟩
  let above : Decimal := ⟨below.digits + 1, exponent⟩
  match c.contains below.value, c.contains above.value with
  | false, false => none
  | true, false => some below
  | false, true => some above
  | true, true =>
    let toBelow := c.center - below.value
    let toAbove := above.value - c.center
    some (if toBelow < toAbove ∨ toBelow = toAbove ∧ below.digits % 2 = 0 then below else above)

/-- The powers of ten to look at, the greatest first. -/
def exponents : List Int :=
  (List.range 633).map fun n => 308 - Int.ofNat n

/-- The decimal with the fewest digits that is read as the float. -/
def shortest (c : Cell) : Decimal :=
  (exponents.findSome? c.on?).getD ⟨0, 0⟩

end Cell

/-- How the digits of a number are set. -/
structure Layout where
  /-- The least power of ten of a first digit that is set in place. -/
  leastPlain : Int
  /-- The greatest power of ten of a first digit that is set in place. -/
  greatestPlain : Int

/-- Digits with a point behind the first `n`; at least one digit follows the point. -/
def pointed (n : Nat) (ds : List Char) : List Char :=
  let behind := ds.drop n
  ds.take n ++ '.' :: (if behind.isEmpty then ['0'] else behind)

/-- The text of a positive number. -/
def Layout.text (l : Layout) (d : Decimal) : List Char :=
  let ds := Nat.toDigits 10 d.digits
  let lead := d.exponent + ds.length - 1
  if l.leastPlain ≤ lead ∧ lead ≤ l.greatestPlain then
    if lead < 0 then pointed 1 (List.replicate lead.natAbs '0' ++ ds)
    else pointed (lead.toNat + 1) (ds ++ List.replicate d.exponent.toNat '0')
  else
    (match ds with
      | [c] => [c]
      | ds => pointed 1 ds) ++
      'e' :: (if lead < 0 then '-' else '+') :: Nat.toDigits 10 lead.natAbs

end Decimal

/-- Numbers are set in place from the fifth place behind the point up to sixteen digits before it. -/
def realLayout : Decimal.Layout :=
  ⟨-5, 15⟩

/-- The bit that tells the sign of a float. -/
def signBit : Nat := 0x8000000000000000

/-- The text of a finite float. -/
def realText (f : Float) : String :=
  let bits := f.toBits.toNat
  let sign := if bits < signBit then [] else ['-']
  let digits :=
    if bits % signBit = 0 then ['0', '.', '0']
    else realLayout.text (Decimal.Cell.ofBits bits).shortest
  String.ofList (sign ++ digits)

end Discussion
