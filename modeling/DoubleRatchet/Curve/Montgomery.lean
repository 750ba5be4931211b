import DoubleRatchet.Curve.Field

/-!
# The Montgomery ladder

Scalar multiplication on the curve v² = u³ + 486662 u² + u by u-coordinates
alone. The ladder keeps two points that differ by the base point, as fractions,
and reads the scalar from its highest bit.
-/
namespace DoubleRatchet.Curve.Montgomery

/-- Two points as fractions of u-coordinates; the second one is the base point ahead. -/
structure Rungs where
  x2 : Field
  z2 : Field
  x3 : Field
  z3 : Field

/-- Doubles the first point and adds both, for the base point `u`. -/
def Rungs.climb (u : Field) (r : Rungs) : Rungs :=
  let a := r.x2 + r.z2
  let b := r.x2 - r.z2
  let aa := a.square
  let bb := b.square
  let e := aa - bb
  let da := (r.x3 - r.z3) * a
  let cb := (r.x3 + r.z3) * b
  ⟨aa * bb, e * (aa + 121665 * e), (da + cb).square, u * (da - cb).square⟩

def Rungs.swap (r : Rungs) : Rungs := ⟨r.x3, r.z3, r.x2, r.z2⟩

/-- One step of the ladder for a bit of the scalar. -/
def Rungs.step (u : Field) (r : Rungs) (bit : Bool) : Rungs :=
  if bit then (r.swap.climb u).swap else r.climb u

/-- The low `count` bits of a number, the highest first. -/
def bits (n : Nat) : (count : Nat) → List Bool
  | 0 => []
  | count + 1 => n.testBit count :: bits n count

/-- The u-coordinate of a multiple of the point at `u`, for scalars below 2 ^ 255. -/
def multiply (scalar : Nat) (u : Field) : Field :=
  let r := (bits scalar 255).foldl (Rungs.step u) ⟨1, 0, u, 1⟩
  r.x2 * r.z2.inverse

/-- The u-coordinate of the base point. -/
def base : Field := 9

end DoubleRatchet.Curve.Montgomery
