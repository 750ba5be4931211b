import DoubleRatchet.Hash.Sha256

/-!
# HMAC-SHA-256

A key is padded with zeros to one block, after hashing when it is longer than
a block; two hashes are taken under it. For many tags of 32-byte strings under
one key the blocks of the key are absorbed once and kept as a `Midstate`.
-/
namespace DoubleRatchet

namespace Hmac

/-- The key as one block of 64 bytes. -/
def block (key : Bytes) : Bytes :=
  let short := if 64 < key.length then (sha256 key).toList else key
  short ++ List.replicate (64 - short.length) 0

def inner (key : Bytes) : Bytes := (block key).map (· ^^^ 0x36)

def outer (key : Bytes) : Bytes := (block key).map (· ^^^ 0x5c)

/-- The chaining words after the inner and the outer block of a key. -/
structure Midstate where
  inner : Sha256.Chaining
  outer : Sha256.Chaining

def Midstate.ofKey (key : Bytes) : Midstate :=
  ⟨Sha256.absorb .initial (Sha256.toWords (Hmac.inner key)),
    Sha256.absorb .initial (Sha256.toWords (Hmac.outer key))⟩

/-- The padding of a message of one block and eight words, as words. -/
def wordPadding : List UInt32 := [0x80000000, 0, 0, 0, 0, 0, 0, 768]

/-- The tag of a digest, both as words. -/
def Midstate.tag (m : Midstate) (digest : Sha256.Chaining) : Sha256.Chaining :=
  let first := Sha256.absorb m.inner (digest.words ++ wordPadding)
  Sha256.absorb m.outer (first.words ++ wordPadding)

end Hmac

/-- The HMAC-SHA-256 tag of a message. -/
def hmacSha256 (key message : Bytes) : Octets 32 :=
  sha256 (Hmac.outer key ++ (sha256 (Hmac.inner key ++ message)).toList)

end DoubleRatchet
