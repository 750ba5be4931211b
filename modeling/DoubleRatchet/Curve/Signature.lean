import DoubleRatchet.Hash.Sha512
import DoubleRatchet.Key

/-!
# XEdDSA signatures

One key serves for agreement, in Montgomery form, and for signing, through the
Edwards point with the same u-coordinate. A u-coordinate does not determine
the sign of the point: the signer writes it into the highest bit of the
signature, which the scalar there leaves free.

The scheme is written for any group with the operations of a `SigningGroup`.
-/
namespace DoubleRatchet

/-- What the signature scheme asks of the curve. -/
structure SigningGroup (Point : Type) where
  base : Point
  add : Point → Point → Point
  neg : Point → Point
  multiply : Nat → Point → Point
  /-- The written form of a point; its highest bit is the sign. -/
  compress : Point → Octets 32
  /-- The point with a given u-coordinate and sign. -/
  ofPublicKey? : PublicKey → (negative : Bool) → Option Point

namespace Xeddsa

/-- The prime order of the base point. -/
def order : Nat := 1 <<< 252 + 27742317777372353535851937790883648493

/-- A 64-byte digest as a scalar. -/
def hashToScalar (message : Bytes) : Nat := littleValue (sha512 message).toList % order

/-- The highest bit of a 32-byte string. -/
def signBit (bs : Octets 32) : Bool := 128 ≤ bs.get 31

/-- What is hashed ahead of the key for the nonce: a string that starts no written point. -/
def nonceLabel : Bytes := 0xfe :: List.replicate 31 0xff

variable {Point : Type} (group : SigningGroup Point)

def sign (key : PrivateKey) (message : Bytes) (random : Octets 64) : Octets 64 :=
  let a := littleValue key.bytes.toList % order
  let publicPoint := group.compress (group.multiply a group.base)
  let r := hashToScalar (nonceLabel ++ key.bytes.toList ++ message ++ random.toList)
  let commitment := group.compress (group.multiply r group.base)
  let h := hashToScalar (commitment.toList ++ publicPoint.toList ++ message)
  let s := Octets.ofLittle 32 ((h * a + r) % order)
  let sign : UInt8 := if signBit publicPoint then 128 else 0
  commitment.append (s.modify 31 fun b => b &&& 127 ||| sign)

/-- The sign bit selects the point, the scalar must be below 2 ^ 253, and the
commitment must be the one that scalar and challenge give. -/
def verify (key : PublicKey) (message : Bytes) (signature : Octets 64) : Bool :=
  let (commitment, last) := signature.halves
  match group.ofPublicKey? key (signBit last) with
  | none => false
  | some point =>
    let s := littleValue (last.modify 31 (· &&& 127)).toList
    if 1 <<< 253 ≤ s then false
    else
      let h := hashToScalar (commitment.toList ++ (group.compress point).toList ++ message)
      let expected :=
        group.add (group.multiply h (group.neg point)) (group.multiply (s % order) group.base)
      group.compress expected = commitment

end Xeddsa

end DoubleRatchet
