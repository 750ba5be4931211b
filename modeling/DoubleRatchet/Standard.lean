import DoubleRatchet.Suite
import DoubleRatchet.Hash.Hmac
import DoubleRatchet.Cipher.Aes
import DoubleRatchet.Curve.Edwards
import DoubleRatchet.Curve.Montgomery
import DoubleRatchet.Curve.Signature
import DoubleRatchet.Simulation

/-!
# The standard suite

X25519 agreement, XEdDSA signatures, HMAC-SHA-256 and AES-256. Agreement and
public keys clamp the scalar when they use it; signing takes it as it is. A
conversation that is run also needs some way to shuffle, and any will do.
-/
namespace DoubleRatchet

namespace Curve

/-- The Edwards form of the curve, as the signature scheme sees it. -/
def signing : SigningGroup Edwards.Point where
  base := Edwards.Point.base
  add := Edwards.Point.add
  neg := Edwards.Point.neg
  multiply := Edwards.Point.multiply
  compress := Edwards.Point.compress
  ofPublicKey? key negative := Edwards.Point.ofMontgomery? (.ofOctets key.bytes) negative

/-- The clamped scalar of a private key. -/
def scalar (key : PrivateKey) : Nat := littleValue (PrivateKey.clamp key.bytes).bytes.toList

def publicKey (key : PrivateKey) : PublicKey :=
  ⟨(Montgomery.multiply (scalar key) Montgomery.base).toOctets⟩

/-- The shared u-coordinate; zero comes from low-order keys only and is refused. -/
def agree (key : PrivateKey) (their : PublicKey) : Option (Octets 32) :=
  let shared := Montgomery.multiply (scalar key) (.ofOctets their.bytes)
  if shared = 0 then none else some shared.toOctets

end Curve

/-- The suite over a signing group and an agreement on the same keys. -/
@[reducible] def Suite.over {Point : Type} (group : SigningGroup Point)
    (publicKey : PrivateKey → PublicKey) (agree : PrivateKey → PublicKey → Option (Octets 32)) :
    Suite where
  publicKey := publicKey
  agree := agree
  sign := Xeddsa.sign group
  verify := Xeddsa.verify group
  mac := hmacSha256
  cipher := Aes.cipher

@[reducible] def Suite.standard : Suite := .over Curve.signing Curve.publicKey Curve.agree

namespace Shuffler

variable {α : Type}

/-- Each item is put at a random place among those behind it. -/
def scatter : List α → Draw (List α)
  | [] => pure []
  | a :: items => do
    let rest ← scatter items
    let places := rest.length + 1
    let i ← Draw.below places (UInt32.size / places * places - 1) Draw.attempts
    return rest.take i ++ a :: rest.drop i

theorem scatter_perm (items : List α) (e : Entropy) : (scatter items e).1.Perm items := by
  induction items with
  | nil => exact .refl []
  | cons a items ih =>
    refine List.perm_middle.trans (.cons a ?_)
    rw [List.take_append_drop]
    exact ih

instance : Shuffler := ⟨scatter, scatter_perm⟩

end Shuffler

end DoubleRatchet
