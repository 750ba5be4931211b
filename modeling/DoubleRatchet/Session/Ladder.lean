import DoubleRatchet.Hash.Hkdf
import DoubleRatchet.Wire.Compact

/-!
# The key ladder

Root keys give chain keys by agreement, a chain key gives the next one and the
keys of one message. Each step is one way: nothing leads back up.
-/
namespace DoubleRatchet

/-- Keys for exactly one message. -/
structure MessageKeys where
  cipherKey : Octets 32
  macKey : Octets 32
  iv : Block
  counter : UInt32
deriving DecidableEq

/-- A symmetric chain key at its index. -/
structure ChainKey where
  key : Octets 32
  index : UInt32
deriving DecidableEq

structure RootKey where
  key : Octets 32
deriving DecidableEq

variable [Suite]

/-- Eighty bytes of derived material, cut into the three keys. -/
def MessageKeys.derive (material : Bytes) (counter : UInt32) : MessageKeys :=
  let okm := Hkdf.derive [] material (utf8 "WhisperMessageKeys") 80
  ⟨okm.slice 0 32 (by decide), okm.slice 32 32 (by decide), okm.slice 64 16 (by decide), counter⟩

namespace ChainKey

/-- The next link of the chain. -/
def next (c : ChainKey) : ChainKey := ⟨Suite.mac c.key.toList [2], c.index + 1⟩

/-- The keys of the message at this link. -/
def messageKeys (c : ChainKey) : MessageKeys :=
  .derive (Suite.mac c.key.toList [1]).toList c.index

/-- The link a number of steps on. -/
def advance : (steps : Nat) → ChainKey → ChainKey
  | 0, c => c
  | steps + 1, c => advance steps c.next

@[simp] theorem messageKeys_counter (c : ChainKey) : c.messageKeys.counter = c.index := rfl

end ChainKey

/-- A root key and a chain at its start from 64 bytes of derived material. -/
def RootKey.split (okm : Octets 64) : RootKey × ChainKey :=
  let (root, chain) := okm.halves
  (⟨root⟩, ⟨chain, 0⟩)

/-- One ratchet step: an agreement mixed into the root key. -/
def RootKey.createChain (root : RootKey) (their : PublicKey) (our : PrivateKey) :
    Except KeyFault (RootKey × ChainKey) := do
  let secret ← our.agree their
  return split (Hkdf.derive root.key.toList secret.toList (utf8 "WhisperRatchet") 64)

end DoubleRatchet
