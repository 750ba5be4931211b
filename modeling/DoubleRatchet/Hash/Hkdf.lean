import DoubleRatchet.Suite

/-!
# HKDF

Extract-and-expand key derivation over the code of the suite. `derive` gives a
byte string of the length asked for in its type; `hkdf` is the same for a
length known only at run time, and refuses more than 255 blocks.
-/
namespace DoubleRatchet

variable [Suite]

namespace Hkdf

/-- A short key from keying material; no salt is the empty salt. -/
def extract (salt material : Bytes) : Octets 32 := Suite.mac salt material

/-- The output blocks from number `index` on, each one a tag over the block before it. -/
def blocks (key info : Bytes) : (count index : Nat) → (previous : Bytes) → Bytes
  | 0, _, _ => []
  | count + 1, index, previous =>
    let block := Suite.mac key (previous ++ info ++ [UInt8.ofNat index])
    block.toList ++ blocks key info count (index + 1) block.toList

theorem length_blocks (key info : Bytes) (count index : Nat) (previous : Bytes) :
    (blocks key info count index previous).length = 32 * count := by
  induction count generalizing index previous with
  | zero => rfl
  | succ count ih => simp [blocks, ih, Octets.length_eq]; omega

def expand (key info : Bytes) (n : Nat) : Octets n :=
  ⟨(blocks key info ((n + 31) / 32) 1 []).take n, by rw [List.length_take, length_blocks]; omega⟩

/-- `n` bytes of key material. -/
def derive (salt material info : Bytes) (n : Nat) : Octets n :=
  expand (extract salt material).toList info n

/-- The longest output: 255 blocks, which one byte can number. -/
def limit : Nat := 255 * 32

end Hkdf

/-- Key material of a length within the limit. -/
def hkdf (material : Bytes) (salt : Option Bytes) (info : Bytes)
    (n : Nat) : Except KeyFault Bytes :=
  if n ≤ Hkdf.limit then .ok (Hkdf.derive (salt.getD []) material info n).toList
  else .error (.outputTooLong n Hkdf.limit)

end DoubleRatchet
