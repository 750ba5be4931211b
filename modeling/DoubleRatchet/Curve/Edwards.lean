import DoubleRatchet.Curve.Field

/-!
# The twisted Edwards curve

Points of -x² + y² = 1 + d x² y² in extended coordinates: x = X / Z, y = Y / Z
and x y = T / Z. The addition law is complete on this curve, so that doubling
and the neutral point are not special. A point is written as its
y-coordinate, with the sign of x in the highest bit.
-/
namespace DoubleRatchet.Curve.Edwards

/-- The coefficient of the curve. -/
def d : Field := -121665 * (121666 : Field).inverse

structure Point where
  x : Field
  y : Field
  z : Field
  t : Field
deriving Inhabited

namespace Point

def neutral : Point := ⟨0, 1, 1, 0⟩

def neg (p : Point) : Point := ⟨-p.x, p.y, p.z, -p.t⟩

def add (p q : Point) : Point :=
  let a := (p.y - p.x) * (q.y - q.x)
  let b := (p.y + p.x) * (q.y + q.x)
  let c := 2 * d * p.t * q.t
  let e := 2 * p.z * q.z
  let f := b - a
  let g := e - c
  let h := e + c
  let i := b + a
  ⟨f * g, h * i, g * h, f * i⟩

/-- A multiple of a point, by doubling the multiple of half the number. -/
def multiply (n : Nat) (p : Point) : Point :=
  if n = 0 then neutral
  else
    let half := multiply (n / 2) p
    let even := half.add half
    if n % 2 = 1 then even.add p else even
termination_by n

/-- The written form of a point. -/
def compress (p : Point) : Octets 32 :=
  let r := p.z.inverse
  let sign : UInt8 := if (p.x * r).isNegative then 128 else 0
  (p.y * r).toOctets.modify 31 (· ^^^ sign)

/-- The point with a given y-coordinate and sign of x. -/
def ofY? (y : Field) (negative : Bool) : Option Point :=
  let yy := y.square
  (Field.rootOfQuotient? (yy - 1) (d * yy + 1)).map fun root =>
    let x := if negative then -root else root
    ⟨x, y, 1, x * y⟩

/-- The point that belongs to a Montgomery u-coordinate; there is none for -1. -/
def ofMontgomery? (u : Field) (negative : Bool) : Option Point :=
  if u = -1 then none else ofY? ((u - 1) * (u + 1).inverse) negative

/-- The base point: y = 4 / 5 and x not negative. -/
def base : Point := (ofY? (4 * (5 : Field).inverse) false).getD neutral

end Point

end DoubleRatchet.Curve.Edwards
