import DoubleRatchet.Cipher.Aes
import DoubleRatchet.Cipher.Cbc
import DoubleRatchet.Cipher.Ctr

/-!
# Encryption under keys given as bytes

A key that is not 32 bytes long, a starting block that is not 16 bytes long and
a ciphertext that does not decrypt are all refused as unusable input.
-/
namespace DoubleRatchet.Aes

/-- The bytes as exactly `n` octets. -/
def exactly (n : Nat) (bs : Bytes) : Except KeyFault (Octets n) :=
  match Octets.ofList? n bs with
  | some o => .ok o
  | none => .error .cipherInput

def encryptCbc (plain key start : Bytes) : Except KeyFault Bytes := do
  let c := cipher (← exactly 32 key)
  return Cbc.encrypt c (← exactly 16 start) plain

def decryptCbc (data key start : Bytes) : Except KeyFault Bytes := do
  let c := cipher (← exactly 32 key)
  match Cbc.decrypt c (← exactly 16 start) data with
  | some plain => return plain
  | none => throw .cipherInput

/-- Counter mode from a zero counter, which is its own inverse. -/
def applyCtr (data key : Bytes) : Except KeyFault Bytes := do
  return Ctr.apply (cipher (← exactly 32 key)) Ctr.fromZero data

end DoubleRatchet.Aes
