import DoubleRatchet.Hash.Hmac

/-!
# PBKDF2 with HMAC-SHA-256

The first tag is of the salt and the block number, each later one of the tag
before it; the key is the exclusive or of them all. One block of 32 bytes is
all that is ever asked for.
-/
namespace DoubleRatchet

namespace Pbkdf2

/-- Adds `count` further tags, the last one so far being `tag`. -/
def accumulate (m : Hmac.Midstate) : (count : Nat) → (tag sum : Sha256.Chaining) → Sha256.Chaining
  | 0, _, sum => sum
  | count + 1, tag, sum =>
    let next := m.tag tag
    accumulate m count next (sum.xor next)

/-- The tag of the salt and the number of the only block. -/
def firstTag (password salt : Bytes) : Sha256.Chaining :=
  let message := salt ++ [0, 0, 0, 1]
  let inner := Hmac.inner password ++ message
  let digest := Sha256.absorb .initial (Sha256.toWords (inner ++ Sha256.padding inner.length))
  (Hmac.Midstate.ofKey password).outer |>
    fun s => Sha256.absorb s (digest.words ++ Hmac.wordPadding)

end Pbkdf2

/-- A 32-byte key from a password; no iterations count as one. -/
def pbkdf2 (password salt : Bytes) (iterations : Nat) : Octets 32 :=
  let first := Pbkdf2.firstTag password salt
  (Pbkdf2.accumulate (.ofKey password) (iterations - 1) first first).digest

end DoubleRatchet
