/-
PageText/Decimal/Shortest.lean

The fewest decimal digits that read back as the same binary64 number, and
among those the nearest to it.

A positive number `m * 2^e` owns the interval of reals that round to it: half
a step up, half a step down (a quarter below a power of two, where the step
below is half as wide), ends included exactly when `m` is even.  For 1, 2, …
17 digits the two neighbours of the number on that decimal grid are tested
against the interval, in integers scaled by a common factor.  The first grid
with a hit wins; of two hits the nearer, and an exact tie goes by `Tie`.
-/

namespace PageText.Decimal

/-- Which neighbour a number takes that lies halfway between two. -/
inductive Tie where
  /-- The neighbour whose last digit is even. -/
  | toEven
  /-- The greater neighbour. -/
  | up
deriving DecidableEq

/-- The number `digits * 10^exponent`. -/
structure Scaled where
  digits : Nat
  exponent : Int
deriving DecidableEq

/-- The decimal digits of a natural number, most significant first. -/
def digitsOf (n : Nat) : List Char := Nat.toDigits 10 n

/-- The exponent of the leading digit of the positive number `num / den`: the
greatest `k` with `10^k ≤ num / den`. -/
def leadingExponent (num den : Nat) : Int :=
  if den ≤ num then (digitsOf (num / den)).length - 1
  else -((digitsOf ((den - 1) / num)).length : Int)

/-- The interval of reals that round to `mantissa * 2^exponent`, in units of
`2^(exponent - 2)`. -/
structure Interval where
  low : Nat
  high : Nat
  closed : Bool

/-- The interval of the binary64 number `m * 2^e`.  Below the least mantissa
of an exponent the next number is half a step away, except at the least
exponent of all. -/
def Interval.of (m : Nat) (e : Int) : Interval where
  low := if m = Nat.pow 2 52 ∧ -1074 < e then 4 * m - 1 else 4 * m - 2
  high := 4 * m + 2
  closed := m % 2 = 0

/-- Factors `(l, r)` that clear denominators between a decimal grid and the
quarters of a binary step: `d * 10^k` and `q * 2^(e - 2)` compare as `d * l`
and `q * r`. -/
def commonScale (k e : Int) : Nat × Nat :=
  (Nat.pow 10 k.toNat * Nat.pow 2 (2 - e).toNat,
    Nat.pow 2 (e - 2).toNat * Nat.pow 10 (-k).toNat)

/-- The neighbour of `m * 2^e` on the grid of multiples of `10^k` that rounds
to it, if there is one. -/
def onGrid? (tie : Tie) (m : Nat) (e k : Int) : Option Nat :=
  let interval := Interval.of m e
  let (l, r) := commonScale k e
  let below := 4 * m * r / l
  let above := below + 1
  let inside (d : Nat) : Bool :=
    if interval.closed then interval.low * r ≤ d * l && d * l ≤ interval.high * r
    else interval.low * r < d * l && d * l < interval.high * r
  if inside below then
    if inside above then
      let gapBelow := 4 * m * r - below * l
      let gapAbove := above * l - 4 * m * r
      if gapBelow < gapAbove then some below
      else if gapAbove < gapBelow then some above
      else match tie with
        | .up => some above
        | .toEven => some (if below % 2 = 0 then below else above)
    else some below
  else if inside above then some above
  else none

/-- The shortest decimal that reads back as the positive number `m * 2^e`.
Seventeen digits always do, so the search has a hit. -/
def shortest (tie : Tie) (m : Nat) (e : Int) : Scaled :=
  let lead := leadingExponent (m * Nat.pow 2 e.toNat) (Nat.pow 2 (-e).toNat)
  let search := (List.range' 1 17).findSome? fun (n : Nat) =>
    let k := lead - n + 1
    (onGrid? tie m e k).map fun d => (⟨d, k⟩ : Scaled)
  search.getD ⟨0, 0⟩

end PageText.Decimal
