import DoubleRatchet.Cipher.Block
import DoubleRatchet.KeyFault

/-!
# Cipher block chaining with padding

Messages are padded to whole blocks by 1 to 16 bytes, each of which is the
number of bytes added. Reading checks every padding byte.
-/
namespace DoubleRatchet.Cbc

/-- Fills up the last block; a full last block is followed by one of padding. -/
def pad (bs : Bytes) : Bytes :=
  let n := 16 - bs.length % 16
  bs ++ List.replicate n (UInt8.ofNat n)

theorem length_pad (bs : Bytes) : (pad bs).length % 16 = 0 := by
  simp [pad]; omega

/-- Takes the padding off, if the last block ends in a valid one. -/
def unpad (bs : Bytes) : Option Bytes :=
  match bs.getLast? with
  | none => none
  | some last =>
    let n := last.toNat
    if n = 0 ∨ 16 < n ∨ bs.length < n then none
    else
      let kept := bs.take (bs.length - n)
      if (bs.drop (bs.length - n)).all (· = last) then some kept else none

/-- The blocks of a byte string, without what does not fill one. -/
def toBlocks (bs : Bytes) : List Block :=
  (chunks 16 (bs.length / 16) bs).filterMap (Octets.ofList? 16)

def ofBlocks (blocks : List Block) : Bytes := blocks.flatMap Octets.toList

/-- Each block is mixed with the encryption of the one before it, the first with `previous`. -/
def encryptBlocks (c : BlockCipher) : (previous : Block) → List Block → List Block
  | _, [] => []
  | previous, b :: bs =>
    let out := c.encrypt (b.xor previous)
    out :: encryptBlocks c out bs

def decryptBlocks (c : BlockCipher) : (previous : Block) → List Block → List Block
  | _, [] => []
  | previous, b :: bs => (c.decrypt b).xor previous :: decryptBlocks c b bs

def encrypt (c : BlockCipher) (start : Block) (plain : Bytes) : Bytes :=
  ofBlocks (encryptBlocks c start (toBlocks (pad plain)))

/-- The plaintext, if the ciphertext is of whole blocks, at least one, and ends in valid padding. -/
def decrypt (c : BlockCipher) (start : Block) (data : Bytes) : Option Bytes :=
  if data = [] ∨ data.length % 16 ≠ 0 then none
  else unpad (ofBlocks (decryptBlocks c start (toBlocks data)))

end DoubleRatchet.Cbc
