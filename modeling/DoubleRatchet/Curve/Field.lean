import DoubleRatchet.Bytes

/-!
# The field of the curve

Integers modulo the prime 2 ^ 255 - 19, their 32-byte form, powers, inverses
and square roots. An element is negative when its least number is odd.
-/
namespace DoubleRatchet.Curve

def prime : Nat := 1 <<< 255 - 19

theorem prime_ne_zero : prime ≠ 0 := by decide

instance : @NeZero Nat Zero.ofOfNat0 prime := ⟨prime_ne_zero⟩

abbrev Field := Fin prime

namespace Field

/-- The element with these bytes, the lowest first; the highest bit is left out. -/
def ofOctets (bs : Octets 32) : Field := Fin.ofNat prime (littleValue bs.toList % 1 <<< 255)

/-- The bytes of the least number of an element. -/
def toOctets (x : Field) : Octets 32 := Octets.ofLittle 32 x.val

def isNegative (x : Field) : Bool := x.val % 2 = 1

def square (x : Field) : Field := x * x

def power (x : Field) (n : Nat) : Field :=
  if n = 0 then 1
  else
    let half := power x (n / 2)
    if n % 2 = 1 then half * half * x else half * half
termination_by n

/-- The inverse of an element, and zero for zero. -/
def inverse (x : Field) : Field := power x (prime - 2)

/-- A square root of minus one. -/
def rootOfMinusOne : Field := power 2 ((prime - 1) / 4)

/-- The root of `u / v` that is not negative, if there is one. -/
def rootOfQuotient? (u v : Field) : Option Field :=
  let v3 := v * v * v
  let root := u * v3 * power (u * (v3 * v3 * v)) ((prime - 5) / 8)
  let check := v * root.square
  let found :=
    if check = u then some root else if check = -u then some (root * rootOfMinusOne) else none
  found.map fun r => if r.isNegative then -r else r

end Field

end DoubleRatchet.Curve
