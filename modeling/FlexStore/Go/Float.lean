import Mathlib.Algebra.Order.Ring.Rat

/-!
# Floating-point arithmetic without its laws

The operations that a Go program applies to `float64` values. Nothing is assumed of them:
sums need not be associative, a value need not be comparable with another or with itself,
and a conversion to an integer may give any integer. What is proved for every such
arithmetic holds for IEEE 754, rounding, infinities and NaN included.
-/

namespace Go

/-- The `float64` operations, constants and conversions. -/
class Float64 (F : Type) extends Add F, Mul F, Div F, Neg F, OfScientific F where
  lt : F → F → Bool
  le : F → F → Bool
  eq : F → F → Bool
  /-- `float64(n)`. -/
  ofInt : Int → F
  /-- `int64(x)`. -/
  toInt : F → Int
  /-- `math.Log`. -/
  log : F → F
  /-- `math.SmallestNonzeroFloat64`. -/
  smallestNonzero : F
  /-- `math.Nextafter(1, 0)`. -/
  belowOne : F

/-- The arithmetic of the machine. -/
instance : Float64 Float where
  lt x y := x < y
  le x y := x ≤ y
  eq x y := x == y
  ofInt := Float.ofInt
  toInt x := x.toInt64.toInt
  log := Float.log
  smallestNonzero := 5e-324
  belowOne := 0.99999999999999988897769753748

/-- Exact arithmetic on the rational numbers, with the tangent at 1 for the logarithm. -/
instance : Float64 Rat where
  lt x y := x < y
  le x y := x ≤ y
  eq x y := x = y
  ofInt n := n
  toInt x := x.num.tdiv x.den
  log x := x - 1
  smallestNonzero := 5e-324
  belowOne := 1 - 1 / 2 ^ 53

/-- `sort.Slice`, of which no more is used than that it rearranges the slice. A comparison
that is no strict weak order leaves the order open, and so this does. -/
structure Sorter where
  sort : {α : Type} → (α → α → Bool) → List α → List α
  perm : ∀ {α : Type} (less : α → α → Bool) (l : List α), (sort less l).Perm l

def Sorter.merge : Sorter where
  sort less l := l.mergeSort fun a b => !less b a
  perm _ l := List.mergeSort_perm l _

end Go
