import DoubleRatchet.Proofs.Suite
import DoubleRatchet.Proofs.Wire.Message
import DoubleRatchet.Proofs.Wire.Protobuf

/-!
# Messages come back from their written form

A ratchet message of the current version is read from its own bytes as it was
made, and its tag verifies; a first message made around any message that is read
from its own bytes is read as it was made too. Main statement:
`RatchetMessage.parse_written`.
-/
namespace DoubleRatchet

open Protobuf

/-- The current version passes the check of the byte that carries it. -/
theorem checkVersionByte_versionByte :
    checkVersionByte (versionByte currentVersion) = .ok currentVersion :=
  rfl

theorem readPoint_wire (key : PublicKey) : readPoint key.wire.toList = .ok key := by
  rw [readPoint, PublicKey.ofWire_wire]
  rfl

theorem Protobuf.fields_write {fs : Fields} (h : ∀ f ∈ fs, f.Fits) : fields fs.write = .ok fs := by
  rw [fields, Fields.read?_write h]

theorem Protobuf.Field.Fits.of_payload {number : Nat} (hnumber : 0 < number ∧ number < 1 <<< 29)
    {payload : Payload} (h : payload.Fits) : (⟨number, payload⟩ : Field).Fits :=
  ⟨hnumber.1, hnumber.2, h⟩

theorem Protobuf.fits_uint32 (v : UInt32) : (Payload.varint v.toNat).Fits :=
  Nat.lt_of_lt_of_le v.toNat_lt (by decide)

theorem Protobuf.fits_wire (key : PublicKey) : (Payload.bytes key.wire.toList).Fits := by
  show key.wire.toList.length < 1 <<< 64
  rw [key.wire.length_eq]
  decide

section Lookup

variable {α : Type} {as? : Payload → Option α} {fs : Fields} {number : Nat}

theorem Protobuf.last_absent (habsent : fs.filter (·.number = number) = []) :
    last as? fs number = .ok none := by
  rw [last, occurrences, habsent]
  rfl

theorem Protobuf.last_once {payload : Payload} {a : α}
    (honce : fs.filter (·.number = number) = [⟨number, payload⟩]) (ha : as? payload = some a) :
    last as? fs number = .ok (some a) := by
  rw [last, occurrences, honce, List.mapM_cons, ha]
  rfl

theorem Protobuf.uint32_once {v : UInt32}
    (honce : fs.filter (·.number = number) = [⟨number, .varint v.toNat⟩]) :
    fs.uint32 number = .ok (some v) :=
  last_once honce (congrArg some UInt32.ofNat_toNat)

theorem Protobuf.bytes_once {bs : Bytes}
    (honce : fs.filter (·.number = number) = [⟨number, .bytes bs⟩]) :
    fs.bytes number = .ok (some bs) :=
  last_once honce rfl

theorem Protobuf.fixed64_once {v : UInt64}
    (honce : fs.filter (·.number = number) = [⟨number, .fixed64 v.toNat⟩]) :
    fs.fixed64 number = .ok (some v) :=
  last_once honce (congrArg some UInt64.ofNat_toNat)

theorem Protobuf.text_once {s : String}
    (honce : fs.filter (·.number = number) = [⟨number, .bytes (utf8 s)⟩]) :
    fs.text number = .ok (some s) :=
  last_once honce (ofUtf8?_utf8 s)

theorem Protobuf.embedded_once {inner : Fields} (hinner : ∀ f ∈ inner, f.Fits)
    (honce : fs.filter (·.number = number) = [⟨number, .bytes inner.write⟩]) :
    fs.embedded number = .ok (some inner) := by
  have hread : Payload.fields? (.bytes inner.write) = some inner :=
    scan_write (by decide) hinner (Nat.le_refl _)
  simp [Fields.embedded, occurrences, honce, List.mapM_cons, hread, Except.map]

theorem mem_of_mapM {β γ : Type} {f : β → Option γ} {bs : List β} {cs : List γ}
    (h : bs.mapM f = some cs) {c : γ} (hc : c ∈ cs) : ∃ b ∈ bs, f b = some c := by
  induction bs generalizing cs with
  | nil =>
    cases h
    cases hc
  | cons b bs ih =>
    rw [List.mapM_cons] at h
    obtain ⟨head, hhead, h⟩ := Option.bind_eq_some_iff.mp h
    obtain ⟨tail, htail, h⟩ := Option.bind_eq_some_iff.mp h
    cases h
    rcases List.mem_cons.mp hc with rfl | hmem
    · exact ⟨b, List.mem_cons_self, hhead⟩
    · obtain ⟨b', hb', hf⟩ := ih htail hmem
      exact ⟨b', List.mem_cons_of_mem b hb', hf⟩

/-- What is found was in a field. -/
theorem Protobuf.last_mem {a : α} (h : last as? fs number = .ok (some a)) :
    ∃ f ∈ fs, as? f.payload = some a := by
  rw [last, occurrences] at h
  split at h
  · next values hvalues =>
    have ha : a ∈ values := List.mem_of_getLast? (Except.ok.inj h)
    obtain ⟨f, hf, hread⟩ := mem_of_mapM hvalues ha
    exact ⟨f, (List.mem_filter.mp hf).1, hread⟩
  · cases h

end Lookup

namespace RatchetMessage

theorem fits_fields (ratchetKey : PublicKey) (counter previousCounter : UInt32) {body : Bytes}
    (hbody : body.length < 1 <<< 64) :
    ∀ f ∈ fields ratchetKey counter previousCounter body, f.Fits := by
  simp only [fields, List.forall_mem_cons, List.not_mem_nil, false_implies, implies_true, and_true]
  exact ⟨.of_payload (by decide) (fits_wire ratchetKey),
    .of_payload (by decide) (fits_uint32 counter),
    .of_payload (by decide) (fits_uint32 previousCounter), .of_payload (by decide) hbody⟩

variable [Suite] (macKey : Bytes) (ratchetKey : PublicKey) (counter previousCounter : UInt32)
  (body : Bytes) (sender receiver : PublicKey)

theorem parse_make (hbody : body.length < 1 <<< 64) :
    parse (make currentVersion macKey ratchetKey counter previousCounter body sender
      receiver).serialized =
      .ok (make currentVersion macKey ratchetKey counter previousCounter body sender receiver) := by
  have htag := length_tag sender receiver macKey
    (versionByte currentVersion :: (fields ratchetKey counter previousCounter body).write)
  have hfields := fields_write (fits_fields ratchetKey counter previousCounter hbody)
  have hkey : (fields ratchetKey counter previousCounter body).bytes 1 =
      .ok (some ratchetKey.wire.toList) :=
    bytes_once rfl
  have hcounter : (fields ratchetKey counter previousCounter body).uint32 2 = .ok (some counter) :=
    uint32_once rfl
  have hprevious :
      (fields ratchetKey counter previousCounter body).uint32 3 = .ok (some previousCounter) :=
    uint32_once rfl
  have hcontent : (fields ratchetKey counter previousCounter body).bytes 4 = .ok (some body) :=
    bytes_once rfl
  have hlong : ¬ (fields ratchetKey counter previousCounter body).write.length + tagLength +
      1 < tagLength + 1 := by
    omega
  simp only [make, parse, List.cons_append, List.length_cons, List.length_append,
    htag, Nat.add_sub_cancel, List.take_left, checkVersionByte_versionByte, hfields, if_neg hlong]
  simp only [bind, Except.bind, hkey, hcounter, hprevious, hcontent, required,
    readPoint_wire, Option.getD_some]
  rfl

/-- The body is part of what is written, with at most 128 bytes around it. -/
theorem length_make (version : UInt8) :
    body.length ≤ (make version macKey ratchetKey counter previousCounter body sender
      receiver).serialized.length ∧
      (make version macKey ratchetKey counter previousCounter body sender
        receiver).serialized.length ≤
        body.length + 128 := by
  have hkey := Field.length_write_bytes 1 ratchetKey.wire.toList
  have hcounter := Field.length_write_varint_le 2 counter.toNat
  have hprevious := Field.length_write_varint_le 3 previousCounter.toNat
  have hbody := Field.length_write_bytes 4 body
  rw [ratchetKey.wire.length_eq] at hkey
  simp only [make, fields, Fields.write, List.flatMap_cons, List.flatMap_nil,
    List.length_append, List.length_cons, List.length_nil, length_tag, tagLength]
  omega

end RatchetMessage

namespace PreKeyMessage

variable (registrationId : UInt32) (preKeyId : Option UInt32) (signedPreKeyId : UInt32)
  (baseKey identityKey : PublicKey)

theorem fits_fields {message : Bytes} (hmessage : message.length < 1 <<< 64) :
    ∀ f ∈ fields registrationId preKeyId signedPreKeyId baseKey identityKey message, f.Fits := by
  refine List.forall_mem_append.mpr ⟨fun f hid => ?_, ?_⟩
  · obtain ⟨id, -, rfl⟩ := List.mem_map.mp hid
    exact .of_payload (by decide) (fits_uint32 id)
  · simp only [List.forall_mem_cons, List.not_mem_nil, false_implies, implies_true, and_true]
    exact ⟨.of_payload (by decide) (fits_wire baseKey),
      .of_payload (by decide) (fits_wire identityKey), .of_payload (by decide) hmessage,
      .of_payload (by decide) (fits_uint32 registrationId),
      .of_payload (by decide) (fits_uint32 signedPreKeyId)⟩

/-- The optional field does not stand in the way of the others. -/
theorem filter_fields {message : Bytes} {number : Nat} (h : 1 ≠ number) :
    (fields registrationId preKeyId signedPreKeyId baseKey identityKey message).filter
      (·.number = number) =
      (fields registrationId none signedPreKeyId baseKey identityKey message).filter
        (·.number = number) := by
  cases preKeyId with
  | none => rfl
  | some id => exact List.filter_cons_of_neg (by simpa using h)

theorem parse_make {message : RatchetMessage}
    (hmessage : RatchetMessage.parse message.serialized = .ok message)
    (hlength : message.serialized.length < 1 <<< 64) :
    parse (make currentVersion registrationId preKeyId signedPreKeyId baseKey identityKey
      message).serialized =
      .ok (make currentVersion registrationId preKeyId signedPreKeyId baseKey
        identityKey message) := by
  have hfields :=
    fields_write (fits_fields registrationId preKeyId signedPreKeyId baseKey identityKey hlength)
  simp only [make, parse, checkVersionByte_versionByte, hfields]
  generalize hfs :
    fields registrationId preKeyId signedPreKeyId baseKey identityKey message.serialized = fs
  have hid : fs.uint32 1 = .ok preKeyId := by
    subst hfs
    cases preKeyId with
    | none => exact last_absent rfl
    | some id => exact uint32_once rfl
  have hothers {number : Nat} (h : 1 ≠ number) : fs.filter (·.number = number) = _ :=
    hfs ▸ filter_fields registrationId preKeyId signedPreKeyId baseKey identityKey h
  have hbase : fs.bytes 2 = .ok (some baseKey.wire.toList) := bytes_once (hothers (by decide))
  have hidentity : fs.bytes 3 = .ok (some identityKey.wire.toList) :=
    bytes_once (hothers (by decide))
  have hcontent : fs.bytes 4 = .ok (some message.serialized) := bytes_once (hothers (by decide))
  have hregistration : fs.uint32 5 = .ok (some registrationId) := uint32_once (hothers (by decide))
  have hsigned : fs.uint32 6 = .ok (some signedPreKeyId) := uint32_once (hothers (by decide))
  simp only [bind, Except.bind, hid, hbase, hidentity, hcontent, hregistration, hsigned,
    required, readPoint_wire, hmessage, Option.getD_some]
  rfl

end PreKeyMessage

/-- Messages of the current version come back from their bytes. What is read of
an ordinary message is what it was made of, and verifies under the key and the
identities it was made with. What is read of a first message around it is what
that one was made of, the optional id included. A body in memory is shorter
than the bound. -/
theorem RatchetMessage.parse_written [Suite] (macKey : Bytes) (ratchetKey : PublicKey)
    (counter previousCounter : UInt32) (body : Bytes) (sender receiver : PublicKey)
    (hbody : body.length < 1 <<< 63) :
    let written :=
      make currentVersion macKey ratchetKey counter previousCounter body sender receiver
    (∃ read, parse written.serialized = .ok read ∧
      read = ⟨currentVersion, ratchetKey, counter, previousCounter, body, written.serialized⟩ ∧
      read.verify sender receiver macKey = true) ∧
    ∀ registrationId preKeyId signedPreKeyId baseKey identityKey,
      let first := PreKeyMessage.make currentVersion registrationId preKeyId signedPreKeyId
        baseKey identityKey written
      PreKeyMessage.parse first.serialized =
        .ok ⟨currentVersion, registrationId, preKeyId, signedPreKeyId, baseKey,
        identityKey, written, first.serialized⟩ := by
  intro written
  have hparse : parse written.serialized = .ok written :=
    parse_make macKey ratchetKey counter previousCounter body sender receiver
      (Nat.lt_trans hbody (by decide))
  have hlength : written.serialized.length < 1 <<< 64 := by
    have hbound : written.serialized.length ≤ body.length + 128 :=
      (length_make macKey ratchetKey counter previousCounter body sender receiver currentVersion).2
    simp only [Nat.reduceShiftLeft] at hbody ⊢
    omega
  refine ⟨⟨written, hparse, rfl, ?_⟩,
    fun registrationId preKeyId signedPreKeyId baseKey identityKey => ?_⟩
  · exact verify_make currentVersion macKey ratchetKey counter previousCounter body sender receiver
  · exact PreKeyMessage.parse_make registrationId preKeyId signedPreKeyId baseKey
      identityKey hparse hlength

/-- A body whose length takes two groups of a varint, the greatest counter, and no
one-time pre-key. -/
theorem RatchetMessage.parse_written_long : (List.replicate 300 (7 : UInt8)).length < 1 <<< 63 ∧
    ∃ read bytes first, parse bytes = .ok read ∧ read.counter = 4294967295 ∧
    read.previousCounter = 0 ∧
      read.body = List.replicate 300 7 ∧
      @verify Small.suite read ⟨.fill 32 1⟩ ⟨.fill 32 2⟩ [3] = true ∧
      PreKeyMessage.parse first =
        .ok ⟨currentVersion, 16380, none, 300, ⟨.fill 32 4⟩, ⟨.fill 32 1⟩, read, first⟩ := by
  let := Small.suite
  have hbody : (List.replicate 300 (7 : UInt8)).length < 1 <<< 63 := by
    rw [List.length_replicate]
    decide
  obtain ⟨⟨read, hparse, rfl, hverify⟩, hfirst⟩ :=
    parse_written [3] ⟨.fill 32 5⟩ 4294967295 0 (List.replicate 300 7)
      ⟨.fill 32 1⟩ ⟨.fill 32 2⟩ hbody
  exact ⟨hbody, _, _, _, hparse, rfl, rfl, rfl, hverify,
    hfirst 16380 none 300 ⟨.fill 32 4⟩ ⟨.fill 32 1⟩⟩

end DoubleRatchet
