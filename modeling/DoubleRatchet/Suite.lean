import DoubleRatchet.Cipher.Block
import DoubleRatchet.Key

/-!
# Cipher suites

What the session engine asks of its primitives, and nothing else: key
agreement, signatures, a message authentication code and a block cipher. The
engine is written for any suite.
-/
namespace DoubleRatchet

/-- The primitives a session is built from. -/
class Suite where
  /-- The public half of a private key. -/
  publicKey : PrivateKey → PublicKey
  /-- The secret that a private and a public key share, unless the public key
  has low order. -/
  agree : PrivateKey → PublicKey → Option (Octets 32)
  /-- The signature of a message, made with 64 random bytes. -/
  sign : PrivateKey → Bytes → Octets 64 → Octets 64
  verify : PublicKey → Bytes → Octets 64 → Bool
  /-- The tag of a message under a key. -/
  mac : Bytes → Bytes → Octets 32
  cipher : Octets 32 → BlockCipher

variable [Suite]

/-- The pair of a private key. -/
def KeyPair.ofPrivate (key : PrivateKey) : KeyPair := ⟨Suite.publicKey key, key⟩

/-- Reads both halves of a pair and checks that they belong together. -/
def KeyPair.ofHalves (publicKey privateKey : Bytes) : Except KeyFault KeyPair := do
  let publicKey ← PublicKey.ofBytes publicKey
  let privateKey ← PrivateKey.ofBytes privateKey
  if Suite.publicKey privateKey = publicKey then return ⟨publicKey, privateKey⟩
  else throw .mismatchedHalves

/-- The secret shared with another party's key. -/
def PrivateKey.agree (key : PrivateKey) (their : PublicKey) : Except KeyFault (Octets 32) :=
  match Suite.agree key their with
  | some secret => .ok secret
  | none => .error .lowOrder

/-- Whether a byte string is a signature of the message by the holder of the key. -/
def PublicKey.verifies (key : PublicKey) (message signature : Bytes) : Bool :=
  match Octets.ofList? 64 signature with
  | some signature => Suite.verify key message signature
  | none => false

end DoubleRatchet
