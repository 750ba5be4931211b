import DoubleRatchet.Proofs.Wire.RoundTrip
import DoubleRatchet.Wire.Envelope

/-!
# One frame of a stream

A buffer is of one of three kinds: its first frame is not all there, its header
has a length out of bounds, or it begins with a frame. One call takes the frame
off in the last case and nothing in the others. What a message is written as is
a frame, from which the message is read again.
-/
namespace DoubleRatchet

/-- A ratchet message that was made in the current version or read from bytes. -/
inductive RatchetMessage.Genuine [Suite] : RatchetMessage → Prop
  | made (macKey : Bytes) (ratchetKey : PublicKey) (counter previousCounter : UInt32) (body : Bytes)
      (sender receiver : PublicKey) :
      Genuine (make currentVersion macKey ratchetKey counter previousCounter body sender receiver)
  | read {bs : Bytes} {m : RatchetMessage} (h : parse bs = .ok m) : Genuine m

/-- A message that was made in the current version, around another such message, or
read from bytes. -/
inductive Message.Genuine [Suite] : Message → Prop
  | ratchet {m : RatchetMessage} (h : m.Genuine) : Genuine (.ratchet m)
  | made (registrationId : UInt32) (preKeyId : Option UInt32) (signedPreKeyId : UInt32)
      (baseKey identityKey : PublicKey) {m : RatchetMessage} (h : m.Genuine) :
      Genuine (.preKey
        (.make currentVersion registrationId preKeyId signedPreKeyId baseKey identityKey m))
  | read {bs : Bytes} {m : PreKeyMessage} (h : PreKeyMessage.parse bs = .ok m) : Genuine (.preKey m)

theorem RatchetMessage.Genuine.parse_serialized [Suite] {m : RatchetMessage} (h : m.Genuine)
    (hlength : m.serialized.length < 1 <<< 64) : parse m.serialized = .ok m := by
  cases h with
  | made macKey ratchetKey counter previousCounter body sender receiver =>
    have hbody :=
      (length_make macKey ratchetKey counter previousCounter body sender receiver currentVersion).1
    exact parse_make macKey ratchetKey counter previousCounter body sender receiver
      (Nat.lt_of_le_of_lt hbody hlength)
  | read h => rwa [(parse_ok h).2]

/-- The message inside is part of what is written. -/
theorem PreKeyMessage.length_message_le (version : UInt8) (registrationId : UInt32)
    (preKeyId : Option UInt32) (signedPreKeyId : UInt32) (baseKey identityKey : PublicKey)
    (m : RatchetMessage) :
    m.serialized.length ≤
      (make version registrationId preKeyId signedPreKeyId baseKey identityKey
        m).serialized.length := by
  have hmessage := (Protobuf.Field.length_write_bytes 4 m.serialized).1
  simp only [make, fields, Protobuf.Fields.write, List.flatMap_append,
    List.flatMap_cons, List.length_cons, List.length_append]
  omega

/-- All that is around the message is of bounded length. -/
theorem PreKeyMessage.length_make_le (version : UInt8) (registrationId : UInt32)
    (preKeyId : Option UInt32) (signedPreKeyId : UInt32) (baseKey identityKey : PublicKey)
    (m : RatchetMessage) :
    (make version registrationId preKeyId signedPreKeyId baseKey identityKey m).serialized.length ≤
      m.serialized.length + 160 := by
  have hid :
      (Protobuf.Fields.write (preKeyId.toList.map fun id =>
        ⟨1, .varint id.toNat⟩)).length ≤ 15 := by
    cases preKeyId with
    | none => exact Nat.zero_le _
    | some id =>
      have hfield := Protobuf.Field.length_write_varint_le 1 id.toNat
      simpa [Protobuf.Fields.write] using hfield
  have hbase := (Protobuf.Field.length_write_bytes 2 baseKey.wire.toList).2
  have hidentity := (Protobuf.Field.length_write_bytes 3 identityKey.wire.toList).2
  have hmessage := (Protobuf.Field.length_write_bytes 4 m.serialized).2
  have hregistration := Protobuf.Field.length_write_varint_le 5 registrationId.toNat
  have hsigned := Protobuf.Field.length_write_varint_le 6 signedPreKeyId.toNat
  rw [Octets.length_eq] at hbase hidentity
  simp only [Protobuf.Fields.write] at hid
  simp only [make, fields, Protobuf.Fields.write, List.flatMap_append,
    List.flatMap_cons, List.flatMap_nil, List.length_cons, List.length_append, List.length_nil]
  omega

theorem Message.Genuine.parse_serialized [Suite] {m : Message} (h : m.Genuine)
    (hlength : m.serialized.length < 1 <<< 64) : parse m.kind.number m.serialized = .ok m := by
  cases h with
  | @ratchet m h =>
    show Message.ratchet <$> RatchetMessage.parse m.serialized = _
    rw [h.parse_serialized hlength]
    rfl
  | @made registrationId preKeyId signedPreKeyId baseKey identityKey m h =>
    have hinner := Nat.lt_of_le_of_lt (PreKeyMessage.length_message_le _ _ _ _ _ _ m) hlength
    have hparse :=
      PreKeyMessage.parse_make registrationId preKeyId signedPreKeyId baseKey identityKey
      (h.parse_serialized hinner) hinner
    exact congrArg (Message.preKey <$> ·) hparse
  | @read bs m h =>
    show Message.preKey <$> PreKeyMessage.parse m.serialized = _
    rw [(PreKeyMessage.parse_ok h).2.2, h]
    rfl

namespace Envelope

/-- The two ways from the number of a kind to a message agree. -/
theorem content_eq_parse (number : UInt8) (body : Bytes) :
    content number body = Message.parse number body := by
  unfold content Message.parse
  cases MessageKind.ofNumber number with
  | error fault => rfl
  | ok kind => cases kind <;> rfl

/-- A frame: the length, the number of a kind, and the body. -/
def frame (number : UInt8) (body : Bytes) : Bytes := bigBytes 4 (body.length + 1) ++ number :: body

@[simp] theorem length_frame (number : UInt8) (body : Bytes) :
    (frame number body).length = 4 + (body.length + 1) := by
  rw [frame, List.length_append, length_bigBytes, List.length_cons]

theorem encode_ok {m : Message} {bytes : Bytes} :
    encode m = .ok bytes ↔
      m.serialized.length < limit ∧ bytes = frame m.kind.number m.serialized := by
  simp only [encode]
  split
  · next hlong => exact iff_of_false nofun fun h => Nat.not_lt.mpr h.1 hlong
  · next hshort =>
    rw [Except.ok.injEq]
    exact ⟨fun h => ⟨Nat.not_lt.mp hshort, h.symm⟩, fun h => h.2.symm⟩

/-- The length in the header at the front, if the header is there. -/
def declared? (buffer : Bytes) : Option Nat :=
  (splitAt? 4 buffer).map fun (header, _) => bigValue header

/-- The header is not all there, or it is in bounds but the frame is not all there. -/
def Incomplete (buffer : Bytes) : Prop :=
  buffer.length < 4 ∨
    ∃ length, declared? buffer = some length ∧ 0 < length ∧ length ≤ limit ∧
    buffer.length < 4 + length

/-- The length in the header is out of bounds. -/
inductive Broken (buffer : Bytes) : WireFault → Prop
  | large {length : Nat} (h : declared? buffer = some length) (hlarge : limit < length) :
      Broken buffer (.envelopeTooLarge length)
  | empty (h : declared? buffer = some 0) : Broken buffer (.messageTooShort 1 0)

variable {buffer : Bytes}

theorem declared?_eq_some {length : Nat} (h : declared? buffer = some length) :
    ∃ header rest, buffer = header ++ rest ∧ header.length = 4 ∧ bigValue header = length := by
  obtain ⟨⟨header, rest⟩, hsplit, hvalue⟩ := Option.map_eq_some_iff.mp h
  obtain ⟨hbuffer, hlength⟩ := splitAt?_eq_some_iff.mp hsplit
  exact ⟨header, rest, hbuffer, hlength, hvalue⟩

theorem declared?_of_header {header : Bytes} (hheader : header.length = 4) (rest : Bytes) :
    declared? (header ++ rest) = some (bigValue header) := by
  rw [declared?, splitAt?_eq_some_iff.mpr ⟨rfl, hheader⟩]
  rfl

/-- Every buffer has one of the three fronts. -/
theorem front (buffer : Bytes) : Incomplete buffer ∨ (∃ fault, Broken buffer fault) ∨
    ∃ number body rest, body.length < limit ∧ buffer = frame number body ++ rest := by
  by_cases hshort : buffer.length < 4
  · exact .inl (.inl hshort)
  obtain ⟨header, rest, rfl, hheader⟩ :
      ∃ header rest, buffer = header ++ rest ∧ header.length = 4 :=
    ⟨_, _, (List.take_append_drop 4 buffer).symm, List.length_take_of_le (Nat.not_lt.mp hshort)⟩
  have hdeclared := declared?_of_header hheader rest
  by_cases hlarge : limit < bigValue header
  · exact .inr (.inl ⟨_, .large hdeclared hlarge⟩)
  rcases Nat.eq_zero_or_pos (bigValue header) with hzero | hpos
  · exact .inr (.inl ⟨_, .empty (hzero ▸ hdeclared)⟩)
  by_cases hpart : (header ++ rest).length < 4 + bigValue header
  · exact .inl (.inr ⟨_, hdeclared, hpos, Nat.not_lt.mp hlarge, hpart⟩)
  have hwhole : bigValue header ≤ rest.length := by
    rw [List.length_append] at hpart
    omega
  obtain ⟨content, more, rfl, hcontent⟩ :
      ∃ content more, rest = content ++ more ∧ content.length = bigValue header :=
    ⟨_, _, (List.take_append_drop _ rest).symm, List.length_take_of_le hwhole⟩
  obtain ⟨number, body, rfl⟩ :=
    List.exists_cons_of_length_pos (Nat.lt_of_lt_of_eq hpos hcontent.symm)
  rw [List.length_cons] at hcontent
  refine .inr (.inr ⟨number, body, more, by omega, ?_⟩)
  rw [frame, hcontent, ← hheader, bigBytes_bigValue, List.append_assoc]

theorem next_of_incomplete (h : Incomplete buffer) : next buffer = (.ok none, buffer) := by
  rcases h with hshort | ⟨length, hdeclared, hpos, hle, hpart⟩
  · have hsplit : splitAt? 4 buffer = none := by
      rw [Option.eq_none_iff_forall_ne_some]
      rintro ⟨header, rest⟩ hsplit
      obtain ⟨rfl, hheader⟩ := splitAt?_eq_some_iff.mp hsplit
      rw [List.length_append] at hshort
      omega
    rw [next, hsplit]
  · obtain ⟨header, rest, rfl, hheader, rfl⟩ := declared?_eq_some hdeclared
    have hsplit : splitAt? (bigValue header) rest = none := by
      rw [Option.eq_none_iff_forall_ne_some]
      rintro ⟨content, more⟩ hsplit
      obtain ⟨rfl, hcontent⟩ := splitAt?_eq_some_iff.mp hsplit
      rw [List.length_append, List.length_append] at hpart
      omega
    rw [next, splitAt?_eq_some_iff.mpr ⟨rfl, hheader⟩]
    simp only [if_neg (Nat.not_lt.mpr hle), if_neg (Nat.ne_of_gt hpos), hsplit]

theorem next_of_broken {fault : WireFault} (h : Broken buffer fault) :
    next buffer = (.error fault, buffer) := by
  cases h with
  | large hdeclared hlarge =>
    obtain ⟨header, rest, rfl, hheader, rfl⟩ := declared?_eq_some hdeclared
    rw [next, splitAt?_eq_some_iff.mpr ⟨rfl, hheader⟩]
    simp only [if_pos hlarge]
  | empty hdeclared =>
    obtain ⟨header, rest, rfl, hheader, hzero⟩ := declared?_eq_some hdeclared
    rw [next, splitAt?_eq_some_iff.mpr ⟨rfl, hheader⟩]
    simp only [hzero, if_neg (Nat.not_lt_zero limit), if_true]

theorem next_frame (number : UInt8) {body : Bytes} (hbody : body.length < limit) (rest : Bytes) :
    next (frame number body ++ rest) = (some <$> Message.parse number body, rest) := by
  have hvalue : bigValue (bigBytes 4 (body.length + 1)) = body.length + 1 := by
    refine bigValue_bigBytes (Nat.lt_of_le_of_lt (Nat.succ_le_of_lt hbody) ?_)
    decide
  have hheader : splitAt? 4 (frame number body ++ rest) =
      some (bigBytes 4 (body.length + 1), (number :: body) ++ rest) :=
    splitAt?_eq_some_iff.mpr ⟨List.append_assoc .., length_bigBytes 4 _⟩
  have hcontent :
      splitAt? (body.length + 1) ((number :: body) ++ rest) = some (number :: body, rest) :=
    splitAt?_eq_some_iff.mpr ⟨rfl, rfl⟩
  rw [next, hheader]
  simp only [hvalue, if_neg (Nat.not_lt.mpr (Nat.succ_le_of_lt hbody)),
    if_neg (Nat.succ_ne_zero body.length), hcontent, content_eq_parse]

end Envelope

end DoubleRatchet
