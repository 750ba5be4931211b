import DoubleRatchet.Proofs.Computation
import DoubleRatchet.Wire.Message

/-!
# Messages as they are written and read

The tag of a message that was just written is right. A message that was read
from bytes keeps them and is of the current version, as is the one inside a
first message.
-/
namespace DoubleRatchet

/-- The ratchet key and the counter of a message. -/
def RatchetMessage.name (m : RatchetMessage) : PublicKey × UInt32 := (m.ratchetKey, m.counter)

theorem RatchetMessage.length_tag [Suite] (sender receiver : PublicKey) (macKey content : Bytes) :
    (tag sender receiver macKey content).length = tagLength := by
  rw [tag, List.length_take, Octets.length_eq]
  rfl

/-- A message verifies between the identities and under the key that it was written with. -/
theorem RatchetMessage.verify_make [Suite] (version : UInt8) (macKey : Bytes)
    (ratchetKey : PublicKey) (counter previousCounter : UInt32) (body : Bytes)
    (sender receiver : PublicKey) :
    (make version macKey ratchetKey counter previousCounter body sender receiver).verify
      sender receiver macKey =
      true := by
  refine decide_eq_true ?_
  simp only [make, List.length_append, length_tag, Nat.add_sub_cancel,
    List.take_left, List.drop_left]

theorem checkVersionByte_ok {byte version : UInt8} (h : checkVersionByte byte = .ok version) :
    version = currentVersion := by
  simp only [checkVersionByte] at h
  split at h
  · cases h
  · split at h
    · cases h
    · next hlow hhigh =>
      cases h
      exact UInt8.le_antisymm (UInt8.not_lt.mp hhigh) (UInt8.not_lt.mp hlow)

/-- What is read is of the current version and keeps the bytes that it was read from. -/
theorem RatchetMessage.parse_ok {bs : Bytes} {m : RatchetMessage} (h : parse bs = .ok m) :
    m.version = currentVersion ∧ m.serialized = bs := by
  unfold parse at h
  split at h
  · cases h
  · split at h
    · cases h
    · obtain ⟨version, hversion, h⟩ := bind_ok.mp h
      obtain ⟨fs, -, h⟩ := bind_ok.mp h
      obtain ⟨key, -, h⟩ := bind_ok.mp h
      obtain ⟨counter, -, h⟩ := bind_ok.mp h
      obtain ⟨previous, -, h⟩ := bind_ok.mp h
      obtain ⟨body, -, h⟩ := bind_ok.mp h
      obtain ⟨point, -, h⟩ := bind_ok.mp h
      obtain ⟨ratchetKey, -, h⟩ := bind_ok.mp h
      obtain ⟨counter, -, h⟩ := bind_ok.mp h
      obtain ⟨body, -, h⟩ := bind_ok.mp h
      cases h
      exact ⟨checkVersionByte_ok hversion, rfl⟩

theorem PreKeyMessage.parse_ok {bs : Bytes} {m : PreKeyMessage} (h : parse bs = .ok m) :
    m.version = currentVersion ∧ m.message.version = currentVersion ∧ m.serialized = bs := by
  unfold parse at h
  split at h
  · cases h
  · obtain ⟨version, hversion, h⟩ := bind_ok.mp h
    obtain ⟨fs, -, h⟩ := bind_ok.mp h
    obtain ⟨preKeyId, -, h⟩ := bind_ok.mp h
    obtain ⟨baseKey, -, h⟩ := bind_ok.mp h
    obtain ⟨identityKey, -, h⟩ := bind_ok.mp h
    obtain ⟨content, -, h⟩ := bind_ok.mp h
    obtain ⟨registrationId, -, h⟩ := bind_ok.mp h
    obtain ⟨signedPreKeyId, -, h⟩ := bind_ok.mp h
    obtain ⟨signedPreKeyId, -, h⟩ := bind_ok.mp h
    obtain ⟨basePoint, -, h⟩ := bind_ok.mp h
    obtain ⟨baseKey, -, h⟩ := bind_ok.mp h
    obtain ⟨identityPoint, -, h⟩ := bind_ok.mp h
    obtain ⟨identityKey, -, h⟩ := bind_ok.mp h
    obtain ⟨content, -, h⟩ := bind_ok.mp h
    obtain ⟨message, hmessage, h⟩ := bind_ok.mp h
    cases h
    exact ⟨checkVersionByte_ok hversion, (RatchetMessage.parse_ok hmessage).1, rfl⟩

namespace Message

/-- The ordinary message that is authenticated and encrypted, in a wrapping or not. -/
def inner : Message → RatchetMessage
  | .ratchet m => m
  | .preKey m => m.message

/-- A message that can come in: some bytes are read as it. -/
def Incoming (m : Message) : Prop := ∃ number bs, parse number bs = .ok m

theorem Incoming.inner_version {m : Message} (h : m.Incoming) :
    m.inner.version = currentVersion := by
  obtain ⟨number, bs, hparse⟩ := h
  obtain ⟨kind, -, hparse⟩ := bind_ok.mp hparse
  cases kind with
  | whisper =>
    obtain ⟨message, hm, rfl⟩ := map_ok.mp hparse
    exact (RatchetMessage.parse_ok hm).1
  | preKey =>
    obtain ⟨message, hm, rfl⟩ := map_ok.mp hparse
    exact (PreKeyMessage.parse_ok hm).2.1

theorem Incoming.preKey_version {m : PreKeyMessage} (h : (Message.preKey m).Incoming) :
    m.version = currentVersion := by
  obtain ⟨number, bs, hparse⟩ := h
  obtain ⟨kind, -, hparse⟩ := bind_ok.mp hparse
  cases kind with
  | whisper =>
    obtain ⟨message, -, hmade⟩ := map_ok.mp hparse
    cases hmade
  | preKey =>
    obtain ⟨message, hm, hmade⟩ := map_ok.mp hparse
    cases hmade
    exact (PreKeyMessage.parse_ok hm).1

end Message

end DoubleRatchet
