import DoubleRatchet.Suite

/-!
# Random bytes

All randomness comes from one stream of bytes, each used once and in order. A
draw is a state transformer over the position in the stream, so that what an
operation draws is part of its meaning.
-/
namespace DoubleRatchet

/-- A stream of random bytes and how many of them are used. -/
structure Entropy where
  source : Nat → UInt8
  used : Nat := 0

abbrev Draw := StateM Entropy

namespace Draw

/-- The next `n` bytes of the stream. -/
def octets (n : Nat) : Draw (Octets n) := fun e =>
  (⟨(List.range n).map fun i => e.source (e.used + i), by simp⟩, { e with used := e.used + n })

@[simp] theorem octets_used (n : Nat) (e : Entropy) : (octets n e).2.used = e.used + n := rfl

@[simp] theorem octets_source (n : Nat) (e : Entropy) : (octets n e).2.source = e.source := rfl

/-- How often a number that would bias the result is drawn again. -/
def attempts : Nat := 256

/-- A number in `[0, range)` without bias: four bytes are scaled to the range,
and drawn again when the fraction lost is past the last full multiple. -/
def below (range zone : Nat) : (attempts : Nat) → Draw Nat
  | 0 => pure 0
  | attempts + 1 => do
    let scaled := littleValue (← octets 4).toList * range
    if scaled % UInt32.size ≤ zone then return scaled / UInt32.size else below range zone attempts

/-- A registration identifier, from 1 to 16379. -/
def registrationId : Draw UInt32 := do
  return UInt32.ofNat (1 + (← below 16379 (16379 <<< 18 - 1) attempts))

end Draw

variable [Suite]

/-- The stream of the tags that a seed gives to successive numbers. -/
def Entropy.ofSeed (seed : Bytes) : Entropy where
  source i := (Suite.mac seed (bigBytes 8 (i / 32))).toList[i % 32]?.getD 0

namespace Draw

def keyPair : Draw KeyPair := do
  return .ofPrivate (.clamp (← octets 32))

/-- A signature over `message`, for which 64 bytes are drawn. -/
def signature (key : PrivateKey) (message : Bytes) : Draw (Octets 64) := do
  return Suite.sign key message (← octets 64)

end Draw

end DoubleRatchet
