import DoubleRatchet.Proofs.Session.Reading
import DoubleRatchet.Proofs.Wire.Envelope

/-!
# What a state writes

A message of a state of the current version is read from its own bytes, and is
longer than its plaintext by a bounded length.
-/
namespace DoubleRatchet.State

variable [Suite] {s : State}

theorem genuine_wrapped (h : s.version = currentVersion) (plain : Bytes) :
    (s.wrapped plain).Genuine := by
  unfold wrapped written
  rw [h]
  cases s.pending with
  | none => exact .ratchet (.made ..)
  | some p => exact .made _ _ _ _ _ (.made ..)

theorem length_wrapped_le (s : State) (plain : Bytes) :
    (s.wrapped plain).serialized.length ≤ plain.length + 320 := by
  have hbody := Cbc.length_encrypt_le (Suite.cipher s.sender.chain.messageKeys.cipherKey)
    s.sender.chain.messageKeys.iv plain
  have hinner : (s.written plain).serialized.length ≤ plain.length + 160 :=
    Nat.le_trans (RatchetMessage.length_make _ _ _ _ _ _ _ _).2 (by omega)
  unfold wrapped
  cases s.pending with
  | none => exact Nat.le_trans hinner (by omega)
  | some p => exact Nat.le_trans (PreKeyMessage.length_make_le _ _ _ _ _ _ _) (by omega)

end DoubleRatchet.State
