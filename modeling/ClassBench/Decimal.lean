/-! Decimal text of binary floating-point numbers.  A number is written with the fewest digits that
read back as it, the nearest such digits, and of two equally near ones those further from zero; in
positional notation whatever its size, with no point in a whole number. -/

namespace ClassBench

/-- The number `digits * 10 ^ exponent`. -/
structure Decimal where
  digits : Nat
  exponent : Int
  deriving DecidableEq, Repr

namespace Decimal

/-- The number in positional notation. -/
def positional (d : Decimal) : String :=
  let digits := Nat.toDigits 10 d.digits
  if 0 ≤ d.exponent then String.ofList (digits ++ List.replicate d.exponent.toNat '0')
  else
    let places := (-d.exponent).toNat
    let padded := List.replicate (places + 1 - digits.length) '0' ++ digits
    let whole := padded.length - places
    String.ofList (padded.take whole ++ '.' :: padded.drop whole)

end Decimal

/-- The positive number `significand * 2 ^ exponent` and the gap below it: half as wide as the gap
above for the least number with its exponent. -/
structure Binary where
  significand : Nat
  exponent : Int
  hasNarrowGap : Bool
  deriving DecidableEq, Repr

namespace Binary

/-- `10 ^ e * 2 ^ (2 - q)`, up to a factor that `right` has as well, for the exponent `q` of the
number. -/
def left (b : Binary) (e : Int) : Nat := Nat.pow 10 e.toNat * Nat.pow 2 (2 - b.exponent).toNat

/-- The other side of a comparison with `left`. -/
def right (b : Binary) (e : Int) : Nat :=
  Nat.pow 10 (-e).toNat * Nat.pow 2 (b.exponent - 2).toNat

/-- Whether `n * 10 ^ e` is read as `b`: it lies between the middles of the gaps around it, which
count if the significand is even. -/
def readsAs (b : Binary) (n : Nat) (e : Int) : Bool :=
  let x := n * b.left e
  let low := (4 * b.significand - if b.hasNarrowGap then 1 else 2) * b.right e
  let high := (4 * b.significand + 2) * b.right e
  if b.significand % 2 = 0 then low ≤ x && x ≤ high else low < x && x < high

/-- The multiple of `10 ^ e` next to `b` that reads as `b`, if there is one: the nearer of two, and
the upper one of two as near. -/
def onGrid? (b : Binary) (e : Int) : Option Nat :=
  let value := 4 * b.significand * b.right e
  let below := value / b.left e
  let lower := below ≠ 0 && b.readsAs below e
  let upper := b.readsAs (below + 1) e
  if lower && upper then
    some (if 2 * value < (2 * below + 1) * b.left e then below else below + 1)
  else if lower then some below
  else if upper then some (below + 1)
  else none

/-- An exponent of ten above that of the number. -/
def startExponent (b : Binary) : Int :=
  (Nat.log2 b.significand + 1 + b.exponent) * 30103 / 100000 + 1

/-- The first hit on ever finer grids, from `10 ^ e` on. -/
def search (b : Binary) : Nat → Int → Decimal
  | 0, e => ⟨4 * b.significand * b.right e / b.left e, e⟩
  | grids + 1, e =>
    match b.onGrid? e with
    | some n => ⟨n, e⟩
    | none => search b grids (e - 1)

/-- The fewest digits that read back as the number; seventeen are always enough. -/
def shortest (b : Binary) : Decimal := b.search 24 b.startExponent

end Binary

/-- A binary format: the bits of the fraction and of the exponent, and the exponent of the last bit
of the fraction in the least numbers. -/
structure FloatFormat where
  fractionBits : Nat
  exponentBits : Nat
  leastExponent : Int

namespace FloatFormat

/-- Numbers of 32 bits. -/
def single : FloatFormat := ⟨23, 8, -149⟩

/-- Numbers of 64 bits. -/
def double : FloatFormat := ⟨52, 11, -1074⟩

/-- The text of a number without its sign. -/
def magnitude (f : FloatFormat) (exponent fraction : Nat) : String :=
  if exponent = 0 then
    if fraction = 0 then "0" else (Binary.shortest ⟨fraction, f.leastExponent, false⟩).positional
  else
    (Binary.shortest
      ⟨Nat.pow 2 f.fractionBits + fraction, f.leastExponent + (exponent - 1 : Nat),
        fraction = 0 && exponent ≠ 1⟩).positional

/-- The text of the number with these bits. -/
def text (f : FloatFormat) (bits : Nat) : String :=
  let fraction := bits % Nat.pow 2 f.fractionBits
  let exponent := bits / Nat.pow 2 f.fractionBits % Nat.pow 2 f.exponentBits
  let sign := if bits / Nat.pow 2 (f.fractionBits + f.exponentBits) % 2 = 1 then "-" else ""
  if exponent = Nat.pow 2 f.exponentBits - 1 then
    if fraction = 0 then sign ++ "inf" else "NaN"
  else sign ++ f.magnitude exponent fraction

end FloatFormat

end ClassBench
