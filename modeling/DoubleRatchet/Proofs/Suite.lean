import DoubleRatchet.Proofs.Cipher.Cbc
import DoubleRatchet.Suite

/-!
# Laws of a suite

What two honest parties need of their primitives for one to read what the other
writes. Nothing here says that a third party cannot.
-/
namespace DoubleRatchet

/-- Two pairs of keys agree on one secret from either side, and the block
cipher decrypts what it encrypts. -/
class Suite.Lawful [Suite] : Prop where
  agree : ∀ a b, ∃ secret, Suite.agree a (Suite.publicKey b) = some secret ∧
    Suite.agree b (Suite.publicKey a) = some secret
  cipher : ∀ key block, (Suite.cipher key).decrypt ((Suite.cipher key).encrypt block) = block

/-- Whatever a key signs verifies under its public half. A suite may ask of a key
that it is clamped for this, while it agrees with any key. -/
def PrivateKey.Signs [Suite] (key : PrivateKey) : Prop :=
  ∀ message random,
    Suite.verify (Suite.publicKey key) message (Suite.sign key message random) = true

/-- A signature verifies as the bytes that it is sent as. -/
theorem PrivateKey.Signs.verifies [Suite] {key : PrivateKey} (h : key.Signs) (message : Bytes)
    (random : Octets 64) :
    (Suite.publicKey key).verifies message (Suite.sign key message random).toList = true := by
  rw [PublicKey.verifies, Octets.ofList?_toList]
  exact h message random

/-- A body decrypts under the keys that it was encrypted under. -/
theorem Suite.cbc_decrypt_encrypt [Suite] [Suite.Lawful] (key : Octets 32) (iv : Block)
    (plain : Bytes) :
    Cbc.decrypt (Suite.cipher key) iv (Cbc.encrypt (Suite.cipher key) iv plain) = some plain :=
  Cbc.decrypt_encrypt (Suite.Lawful.cipher key) iv plain

namespace Small

/-- The remainder of a byte string, read as a number, by a prime. -/
def checksum (bs : Bytes) : Nat := bs.foldl (fun n b => (n * 257 + b.toNat + 1) % 65521) 1

def mac (key content : Bytes) : Octets 32 :=
  let sum := checksum (key ++ content)
  ⟨(List.range 32).map fun i => UInt8.ofNat (sum * (2 * i + 1) / 64), by simp⟩

theorem half_fits : 0 + 16 ≤ 32 := by decide

def mask (key : Octets 32) : Block := key.slice 0 16 half_fits

/-- A suite that protects nothing and is quick to evaluate: keys are their own public
halves, a tag is a checksum, and the cipher mixes in one half of the key. -/
@[reducible] def suite : Suite where
  publicKey key := ⟨key.bytes⟩
  agree key their := some (key.bytes.xor their.bytes)
  sign _ _ _ := .fill 64 0
  verify _ _ _ := true
  mac := mac
  cipher key := ⟨fun b => b.xor (mask key), fun b => b.xor (mask key)⟩

theorem lawful : @Suite.Lawful suite :=
  @Suite.Lawful.mk suite
    (fun a b => ⟨a.bytes.xor b.bytes, rfl, congrArg some (Octets.xor_comm _ _)⟩)
    fun key block => Octets.xor_xor_cancel block (mask key)

theorem signs (key : PrivateKey) : @PrivateKey.Signs suite key := fun _ _ => rfl

end Small

end DoubleRatchet
