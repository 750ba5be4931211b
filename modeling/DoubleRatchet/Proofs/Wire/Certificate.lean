import DoubleRatchet.Proofs.Wire.RoundTrip
import DoubleRatchet.Wire.Sealed
import Mathlib.Control.Monad.Basic

/-!
# Certificates keep what was signed

A certificate says what its signed bytes say and is written as these bytes with
their signature. So it is read again as it is, also where the signed bytes are
in a form that no writer here would give them: they may have fields without
meaning, in any order and more than once. Main statement:
`certificates_round_trip`.
-/
namespace DoubleRatchet

open Protobuf

section Parts

variable {certificate signature : Bytes}

theorem ServerCertificate.fits_parts (hcertificate : certificate.length < 1 <<< 64)
    (hsignature : signature.length < 1 <<< 64) :
    ∀ f ∈ ([⟨1, .bytes certificate⟩, ⟨2, .bytes signature⟩] : Fields), f.Fits := by
  simp only [List.forall_mem_cons, List.not_mem_nil, false_implies, implies_true, and_true]
  exact ⟨.of_payload (by decide) hcertificate, .of_payload (by decide) hsignature⟩

theorem ServerCertificate.parts_once (certificate signature : Bytes) :
    parts [⟨1, .bytes certificate⟩, ⟨2, .bytes signature⟩] =
      .ok (some certificate, some signature) := by
  have hcertificate :
      Fields.bytes [⟨1, .bytes certificate⟩, ⟨2, .bytes signature⟩] 1 = .ok (some certificate) :=
    bytes_once rfl
  have hsignature :
      Fields.bytes [⟨1, .bytes certificate⟩, ⟨2, .bytes signature⟩] 2 = .ok (some signature) :=
    bytes_once rfl
  rw [parts, hcertificate, hsignature]
  rfl

/-- The parts of a certificate that is embedded in another message. -/
theorem ServerCertificate.mapM_parts (certificate signature : Bytes) :
    (some ([⟨1, .bytes certificate⟩, ⟨2, .bytes signature⟩] : Fields)).mapM parts =
      .ok (some (some certificate, some signature)) := by
  show (some <$> parts [⟨1, .bytes certificate⟩, ⟨2, .bytes signature⟩]) = _
  rw [parts_once]
  rfl

/-- Byte strings that were read are short enough to be written. -/
theorem Protobuf.length_of_bytes {bs found : Bytes} {fs : Fields} {number : Nat}
    (hfs : fields bs = .ok fs) (h : fs.bytes number = .ok (some found)) :
    found.length < 1 <<< 64 := by
  obtain ⟨⟨_, payload⟩, hmem, hpayload⟩ := last_mem h
  have hfits : payload.Fits := fits_of_fields hfs _ hmem
  cases payload with
  | bytes bs =>
    cases hpayload
    exact hfits
  | varint => cases hpayload
  | fixed64 => cases hpayload
  | group => cases hpayload
  | fixed32 => cases hpayload

theorem Protobuf.required_ok {α : Type} {name : String} {found : Option α} {a : α} :
    required name found = .ok a ↔ found = some a := by
  cases found <;> simp [required]

section Made

variable {α : Type} {make : Bytes → Bytes → Except WireFault α} {first second : String} {c : α}

/-- What is read from bytes of any origin is made of two byte strings that are short
enough to be written. -/
theorem ServerCertificate.made_of_read {bs : Bytes}
    (h : (do
      let p ← parts (← fields bs)
      make (← required first p.1) (← required second p.2)) = .ok c) :
    ∃ certificate signature, make certificate signature = .ok c ∧ certificate.length < 1 <<< 64 ∧
      signature.length < 1 <<< 64 := by
  obtain ⟨fs, hfs, h⟩ := bind_ok.mp h
  obtain ⟨p, hp, h⟩ := bind_ok.mp h
  obtain ⟨one, hone, hp⟩ := bind_ok.mp hp
  obtain ⟨two, htwo, hp⟩ := bind_ok.mp hp
  cases hp
  obtain ⟨certificate, hcertificate, h⟩ := bind_ok.mp h
  obtain ⟨signature, hsignature, h⟩ := bind_ok.mp h
  obtain rfl := required_ok.mp hcertificate
  obtain rfl := required_ok.mp hsignature
  exact ⟨certificate, signature, h, length_of_bytes hfs hone, length_of_bytes hfs htwo⟩

/-- Two such byte strings are read again from what is written for them. -/
theorem ServerCertificate.read_of_made (h : make certificate signature = .ok c)
    (hcertificate : certificate.length < 1 <<< 64) (hsignature : signature.length < 1 <<< 64) :
    (do
      let p ← parts (← fields (Fields.write [⟨1, .bytes certificate⟩, ⟨2, .bytes signature⟩]))
      make (← required first p.1) (← required second p.2)) = .ok c := by
  simp only [fields_write (fits_parts hcertificate hsignature), bind, Except.bind,
    parts_once, required, h]

end Made

end Parts

namespace ServerCertificate

variable {certificate signature : Bytes} {c : ServerCertificate}

theorem ofSigned_ok (h : ofSigned certificate signature = .ok c) :
    c.certificate = certificate ∧ c.signature = signature := by
  obtain ⟨fs, -, h⟩ := bind_ok.mp h
  obtain ⟨keyId, -, h⟩ := bind_ok.mp h
  obtain ⟨key, -, h⟩ := bind_ok.mp h
  obtain ⟨keyId, -, h⟩ := bind_ok.mp h
  obtain ⟨point, -, h⟩ := bind_ok.mp h
  obtain ⟨key, -, h⟩ := bind_ok.mp h
  cases h
  exact ⟨rfl, rfl⟩

theorem ofParts_ok {p : Option Bytes × Option Bytes} (h : ofParts p = .ok c) :
    ofSigned c.certificate c.signature = .ok c := by
  obtain ⟨certificate, -, h⟩ := bind_ok.mp h
  obtain ⟨signature, -, h⟩ := bind_ok.mp h
  obtain ⟨rfl, rfl⟩ := ofSigned_ok h
  exact h

/-- A certificate of signed bytes with their signature, or one that was read
from bytes of any origin. -/
inductive Obtained : ServerCertificate → Prop
  | signed {certificate signature : Bytes} (hcertificate : certificate.length < 1 <<< 64)
      (hsignature : signature.length < 1 <<< 64) {c : ServerCertificate}
      (h : ofSigned certificate signature = .ok c) : Obtained c
  | read {bs : Bytes} {c : ServerCertificate} (h : parse bs = .ok c) : Obtained c

/-- The certificate says what its own signed bytes say, and can be written. -/
structure WellFormed (c : ServerCertificate) : Prop where
  signed : ofSigned c.certificate c.signature = .ok c
  certificate : c.certificate.length < 1 <<< 64
  signature : c.signature.length < 1 <<< 64

theorem Obtained.wellFormed (h : c.Obtained) : c.WellFormed := by
  cases h with
  | signed hcertificate hsignature h =>
    obtain ⟨rfl, rfl⟩ := ofSigned_ok h
    exact ⟨h, hcertificate, hsignature⟩
  | read h =>
    obtain ⟨certificate, signature, hmade, hlength⟩ := made_of_read h
    obtain ⟨rfl, rfl⟩ := ofSigned_ok hmade
    exact ⟨hmade, hlength.1, hlength.2⟩

theorem WellFormed.fits (h : c.WellFormed) : ∀ f ∈ c.toFields, f.Fits :=
  fits_parts h.certificate h.signature

theorem WellFormed.ofParts (h : c.WellFormed) :
    ServerCertificate.ofParts (some c.certificate, some c.signature) = .ok c :=
  h.signed

theorem WellFormed.parse_serialize (h : c.WellFormed) : parse c.serialize = .ok c :=
  read_of_made h.signed h.certificate h.signature

/-- The fields of the bytes that the trust root signs. -/
def signedFields (keyId : UInt32) (key : PublicKey) : Fields :=
  [⟨1, .varint keyId.toNat⟩, ⟨2, .bytes key.wire.toList⟩]

theorem fits_signedFields (keyId : UInt32) (key : PublicKey) :
    ∀ f ∈ signedFields keyId key, f.Fits := by
  simp only [signedFields, List.forall_mem_cons, List.not_mem_nil, false_implies,
    implies_true, and_true]
  exact ⟨.of_payload (by decide) (fits_uint32 keyId), .of_payload (by decide) (fits_wire key)⟩

theorem ofSigned_content (keyId : UInt32) (key : PublicKey) (signature : Bytes) :
    ofSigned (content keyId key) signature = .ok ⟨keyId, key, content keyId key, signature⟩ := by
  have hfields : fields (content keyId key) = .ok (signedFields keyId key) :=
    fields_write (fits_signedFields keyId key)
  have hid : (signedFields keyId key).uint32 1 = .ok (some keyId) := uint32_once rfl
  have hkey : (signedFields keyId key).bytes 2 = .ok (some key.wire.toList) := bytes_once rfl
  simp only [ofSigned, hfields, bind, Except.bind, hid, hkey, required, readPoint_wire]
  rfl

end ServerCertificate

namespace SenderCertificate

variable {certificate signature : Bytes} {c : SenderCertificate}

/-- The signer inside says what its own signed bytes say, as the certificate does. -/
theorem ofSigned_ok (h : ofSigned certificate signature = .ok c) :
    c.certificate = certificate ∧ c.signature = signature ∧
      ServerCertificate.ofSigned c.signer.certificate c.signer.signature = .ok c.signer := by
  obtain ⟨fs, -, h⟩ := bind_ok.mp h
  obtain ⟨name, -, h⟩ := bind_ok.mp h
  obtain ⟨device, -, h⟩ := bind_ok.mp h
  obtain ⟨expires, -, h⟩ := bind_ok.mp h
  obtain ⟨identityKey, -, h⟩ := bind_ok.mp h
  obtain ⟨embedded, -, h⟩ := bind_ok.mp h
  obtain ⟨parts, -, h⟩ := bind_ok.mp h
  obtain ⟨name, -, h⟩ := bind_ok.mp h
  obtain ⟨device, -, h⟩ := bind_ok.mp h
  obtain ⟨expires, -, h⟩ := bind_ok.mp h
  obtain ⟨point, -, h⟩ := bind_ok.mp h
  obtain ⟨identityKey, -, h⟩ := bind_ok.mp h
  obtain ⟨found, -, h⟩ := bind_ok.mp h
  obtain ⟨signer, hsigner, h⟩ := bind_ok.mp h
  cases h
  exact ⟨rfl, rfl, ServerCertificate.ofParts_ok hsigner⟩

theorem ofParts_ok {p : Option Bytes × Option Bytes} (h : ofParts p = .ok c) :
    ofSigned c.certificate c.signature = .ok c := by
  obtain ⟨certificate, -, h⟩ := bind_ok.mp h
  obtain ⟨signature, -, h⟩ := bind_ok.mp h
  obtain ⟨rfl, rfl, -⟩ := ofSigned_ok h
  exact h

/-- A certificate of signed bytes with their signature, or one that was read
from bytes of any origin. -/
inductive Obtained : SenderCertificate → Prop
  | signed {certificate signature : Bytes} (hcertificate : certificate.length < 1 <<< 64)
      (hsignature : signature.length < 1 <<< 64) {c : SenderCertificate}
      (h : ofSigned certificate signature = .ok c) : Obtained c
  | read {bs : Bytes} {c : SenderCertificate} (h : parse bs = .ok c) : Obtained c

/-- The certificate says what its own signed bytes say, and can be written. -/
structure WellFormed (c : SenderCertificate) : Prop where
  signed : ofSigned c.certificate c.signature = .ok c
  certificate : c.certificate.length < 1 <<< 64
  signature : c.signature.length < 1 <<< 64

theorem Obtained.wellFormed (h : c.Obtained) : c.WellFormed := by
  cases h with
  | signed hcertificate hsignature h =>
    obtain ⟨rfl, rfl, -⟩ := ofSigned_ok h
    exact ⟨h, hcertificate, hsignature⟩
  | read h =>
    obtain ⟨certificate, signature, hmade, hlength⟩ := ServerCertificate.made_of_read h
    obtain ⟨rfl, rfl, -⟩ := ofSigned_ok hmade
    exact ⟨hmade, hlength.1, hlength.2⟩

theorem WellFormed.fits (h : c.WellFormed) : ∀ f ∈ c.toFields, f.Fits :=
  ServerCertificate.fits_parts h.certificate h.signature

theorem WellFormed.ofParts (h : c.WellFormed) :
    SenderCertificate.ofParts (some c.certificate, some c.signature) = .ok c :=
  h.signed

/-- The signed bytes are part of what is written. -/
theorem length_le_serialize (c : SenderCertificate) : c.certificate.length ≤ c.serialize.length :=
  Fields.length_le_write 1 (by simp [toFields])

theorem WellFormed.parse_serialize (h : c.WellFormed) : parse c.serialize = .ok c :=
  ServerCertificate.read_of_made h.signed h.certificate h.signature

/-- The fields of the bytes that a server signs. -/
def signedFields (sender : Address) (expires : UInt64) (identityKey : PublicKey)
    (signer : ServerCertificate) : Fields :=
  [⟨1, .bytes (utf8 sender.name)⟩, ⟨2, .varint sender.device.toNat⟩, ⟨3, .fixed64 expires.toNat⟩,
    ⟨4, .bytes identityKey.wire.toList⟩, ⟨5, .bytes signer.serialize⟩]

section Content

variable (sender : Address) (expires : UInt64) (identityKey : PublicKey)
  {signer : ServerCertificate}

theorem fits_signedFields
    (hlength : (content sender expires identityKey signer).length < 1 <<< 64) :
    ∀ f ∈ signedFields sender expires identityKey signer, f.Fits := by
  have hname :
      (utf8 sender.name).length ≤ (signedFields sender expires identityKey signer).write.length :=
    Fields.length_le_write 1 (by simp [signedFields])
  have hsigner :
      signer.serialize.length ≤ (signedFields sender expires identityKey signer).write.length :=
    Fields.length_le_write 5 (by simp [signedFields])
  simp only [signedFields, List.forall_mem_cons, List.not_mem_nil, false_implies,
    implies_true, and_true]
  exact ⟨.of_payload (by decide) (Nat.lt_of_le_of_lt hname hlength),
    .of_payload (by decide) (fits_uint32 sender.device), .of_payload (by decide) expires.toNat_lt,
    .of_payload (by decide) (fits_wire identityKey),
    .of_payload (by decide) (Nat.lt_of_le_of_lt hsigner hlength)⟩

theorem ofSigned_content (hsigner : signer.WellFormed) (signature : Bytes)
    (hlength : (content sender expires identityKey signer).length < 1 <<< 64) :
    ofSigned (content sender expires identityKey signer) signature =
      .ok ⟨sender, expires, identityKey, signer,
        content sender expires identityKey signer, signature⟩ := by
  have hfields : fields (content sender expires identityKey signer) =
      .ok (signedFields sender expires identityKey signer) :=
    fields_write (fits_signedFields sender expires identityKey hlength)
  generalize content sender expires identityKey signer = body at *
  generalize hfs : signedFields sender expires identityKey signer = fs at *
  have hname : fs.text 1 = .ok (some sender.name) := text_once (hfs ▸ rfl)
  have hdevice : fs.uint32 2 = .ok (some sender.device) := uint32_once (hfs ▸ rfl)
  have hexpires : fs.fixed64 3 = .ok (some expires) := fixed64_once (hfs ▸ rfl)
  have hkey : fs.bytes 4 = .ok (some identityKey.wire.toList) := bytes_once (hfs ▸ rfl)
  have hembedded : fs.embedded 5 = .ok (some signer.toFields) :=
    embedded_once hsigner.fits (hfs ▸ rfl)
  have hparts : (some signer.toFields).mapM ServerCertificate.parts =
      .ok (some (some signer.certificate, some signer.signature)) :=
    ServerCertificate.mapM_parts signer.certificate signer.signature
  simp only [ofSigned, hfields, bind, Except.bind, hname, hdevice, hexpires, hkey,
    hembedded, hparts, required, readPoint_wire, hsigner.ofParts]
  rfl

end Content

end SenderCertificate

namespace SealedContent

def toFields (c : SealedContent) : Fields :=
  [⟨1, .varint c.kind.number.toNat⟩, ⟨2, .bytes c.certificate.serialize⟩, ⟨3, .bytes c.content⟩]

variable {c : SealedContent}

/-- The certificate and what is sealed with it are parts of what is written. -/
theorem length_le_serialize (c : SealedContent) :
    c.certificate.serialize.length ≤ c.serialize.length ∧ c.content.length ≤ c.serialize.length :=
  ⟨Fields.length_le_write 2 (by simp), Fields.length_le_write 3 (by simp)⟩

theorem fits_toFields (hlength : c.serialize.length < 1 <<< 64) : ∀ f ∈ c.toFields, f.Fits := by
  obtain ⟨hcertificate, hcontent⟩ := length_le_serialize c
  simp only [toFields, List.forall_mem_cons, List.not_mem_nil, false_implies,
    implies_true, and_true]
  exact ⟨.of_payload (by decide) (fits_uint32 c.kind.number),
    .of_payload (by decide) (Nat.lt_of_le_of_lt hcertificate hlength),
    .of_payload (by decide) (Nat.lt_of_le_of_lt hcontent hlength)⟩

theorem parse_ok {bs : Bytes} {content : SealedContent} (h : parse bs = .ok content) :
    SenderCertificate.ofSigned content.certificate.certificate content.certificate.signature =
      .ok content.certificate := by
  obtain ⟨fs, -, h⟩ := bind_ok.mp h
  obtain ⟨kind, -, h⟩ := bind_ok.mp h
  obtain ⟨embedded, -, h⟩ := bind_ok.mp h
  obtain ⟨parts, -, h⟩ := bind_ok.mp h
  obtain ⟨bytes, -, h⟩ := bind_ok.mp h
  obtain ⟨number, -, h⟩ := bind_ok.mp h
  obtain ⟨kind, -, h⟩ := bind_ok.mp h
  obtain ⟨found, -, h⟩ := bind_ok.mp h
  obtain ⟨certificate, hcertificate, h⟩ := bind_ok.mp h
  obtain ⟨bytes, -, h⟩ := bind_ok.mp h
  cases h
  exact SenderCertificate.ofParts_ok hcertificate

theorem parse_serialize (hcertificate : c.certificate.WellFormed)
    (hlength : c.serialize.length < 1 <<< 64) :
    parse c.serialize = .ok c := by
  have hfields : fields c.serialize = .ok c.toFields := fields_write (fits_toFields hlength)
  have hkind : c.toFields.uint32 1 = .ok (some c.kind.number) := uint32_once rfl
  have hembedded : c.toFields.embedded 2 = .ok (some c.certificate.toFields) :=
    embedded_once hcertificate.fits rfl
  have hcontent : c.toFields.bytes 3 = .ok (some c.content) := bytes_once rfl
  have hparts : (some c.certificate.toFields).mapM ServerCertificate.parts =
      .ok (some (some c.certificate.certificate, some c.certificate.signature)) :=
      ServerCertificate.mapM_parts c.certificate.certificate c.certificate.signature
  simp only [parse, hfields, bind, Except.bind, hkind, hembedded, hparts, hcontent, required,
    SealedKind.ofNumber_number, hcertificate.ofParts]
  rfl

end SealedContent

namespace SealedEnvelope

def toFields (e : SealedEnvelope) : Fields :=
  [⟨1, .bytes e.ephemeral.wire.toList⟩, ⟨2, .bytes e.encryptedStatic⟩,
    ⟨3, .bytes e.encryptedMessage⟩]

variable {e : SealedEnvelope}

/-- Both ciphertexts are parts of what is written. -/
theorem length_le_serialize (e : SealedEnvelope) :
    e.encryptedStatic.length ≤ e.serialize.length ∧
      e.encryptedMessage.length ≤ e.serialize.length := by
  have hstatic : e.encryptedStatic.length ≤ e.toFields.write.length :=
    Fields.length_le_write 2 (by simp [toFields])
  have hmessage : e.encryptedMessage.length ≤ e.toFields.write.length :=
    Fields.length_le_write 3 (by simp [toFields])
  exact ⟨Nat.le_succ_of_le hstatic, Nat.le_succ_of_le hmessage⟩

theorem fits_toFields (hlength : e.serialize.length < 1 <<< 64) : ∀ f ∈ e.toFields, f.Fits := by
  obtain ⟨hstatic, hmessage⟩ := length_le_serialize e
  simp only [toFields, List.forall_mem_cons, List.not_mem_nil, false_implies,
    implies_true, and_true]
  exact ⟨.of_payload (by decide) (fits_wire e.ephemeral),
    .of_payload (by decide) (Nat.lt_of_le_of_lt hstatic hlength),
    .of_payload (by decide) (Nat.lt_of_le_of_lt hmessage hlength)⟩

/-- The first byte of an envelope tells the version of its layout. -/
theorem parse_ok {input : Bytes} {e : SealedEnvelope} (h : parse input = .ok e) :
    ∃ first rest, input = first :: rest ∧ first >>> 4 = version := by
  cases input with
  | nil => cases h
  | cons first rest =>
    refine ⟨first, rest, rfl, ?_⟩
    by_contra hversion
    simp only [parse, ne_eq, if_pos hversion] at h
    cases h

theorem parse_serialize (hlength : e.serialize.length < 1 <<< 64) : parse e.serialize = .ok e := by
  have hversion : ¬ (version <<< 4 ||| version) >>> 4 ≠ version := by decide
  have hfields :
      fields (Fields.write [⟨1, .bytes e.ephemeral.wire.toList⟩, ⟨2, .bytes e.encryptedStatic⟩,
      ⟨3, .bytes e.encryptedMessage⟩]) = .ok e.toFields := fields_write (fits_toFields hlength)
  have hephemeral : e.toFields.bytes 1 = .ok (some e.ephemeral.wire.toList) := bytes_once rfl
  have hstatic : e.toFields.bytes 2 = .ok (some e.encryptedStatic) := bytes_once rfl
  have hmessage : e.toFields.bytes 3 = .ok (some e.encryptedMessage) := bytes_once rfl
  simp only [serialize, parse, if_neg hversion, hfields, bind, Except.bind, hephemeral,
    hstatic, hmessage, required, readPoint_wire]
  rfl

end SealedEnvelope

/-- Signed bytes that a certificate is made for give back exactly what they were
made of, with the signer inside of a sender's certificate as it was. Every
certificate, whether of signed bytes or read from bytes of any origin, is read
from its written form with the same signed bytes and the same signature, and
these alone say what it reports. Sealed contents with such a certificate and
envelopes are read from their written forms too. A byte string in memory is
shorter than the bound. -/
theorem certificates_round_trip :
    (∀ keyId key signature,
      ServerCertificate.ofSigned (ServerCertificate.content keyId key) signature =
      .ok ⟨keyId, key, ServerCertificate.content keyId key, signature⟩) ∧
    (∀ sender expires identityKey signer signature, signer.Obtained →
      let signed := SenderCertificate.content sender expires identityKey signer
      signed.length < 1 <<< 64 → SenderCertificate.ofSigned signed signature =
        .ok ⟨sender, expires, identityKey, signer, signed, signature⟩) ∧
    (∀ c : ServerCertificate, c.Obtained → ServerCertificate.parse c.serialize = .ok c ∧
      ServerCertificate.ofSigned c.certificate c.signature = .ok c) ∧
    (∀ c : SenderCertificate, c.Obtained → SenderCertificate.parse c.serialize = .ok c ∧
      SenderCertificate.ofSigned c.certificate c.signature = .ok c) ∧
    (∀ c : SealedContent, c.certificate.Obtained → c.serialize.length < 1 <<< 64 →
      SealedContent.parse c.serialize = .ok c) ∧
    ∀ e : SealedEnvelope, e.serialize.length < 1 <<< 64 →
    SealedEnvelope.parse e.serialize = .ok e := by
  refine ⟨ServerCertificate.ofSigned_content, ?_, ?_, ?_, ?_, ?_⟩
  · intro sender expires identityKey signer signature hsigner signed hlength
    exact SenderCertificate.ofSigned_content sender expires identityKey
      hsigner.wellFormed signature hlength
  · intro c hc
    exact ⟨hc.wellFormed.parse_serialize, hc.wellFormed.signed⟩
  · intro c hc
    exact ⟨hc.wellFormed.parse_serialize, hc.wellFormed.signed⟩
  · intro c hc hlength
    exact SealedContent.parse_serialize hc.wellFormed hlength
  · intro e hlength
    exact SealedEnvelope.parse_serialize hlength

/-- What a server is certified by, with the fields in another order, one of them
twice, and one without meaning. -/
def Small.reordered : Bytes :=
  Fields.write [⟨9, .fixed32 4⟩, ⟨2, .bytes (default : PublicKey).wire.toList⟩,
    ⟨1, .varint 3⟩, ⟨1, .varint 7⟩]

/-- What a sender is certified by, with the signer in two parts. -/
def Small.scattered : Bytes :=
  Fields.write [⟨5, .bytes (Fields.write [⟨2, .bytes [1]⟩])⟩, ⟨1, .bytes (utf8 "alice")⟩,
    ⟨4, .bytes (default : PublicKey).wire.toList⟩,
    ⟨5, .bytes (Fields.write [⟨1, .bytes reordered⟩])⟩,
    ⟨3, .fixed64 31337⟩, ⟨2, .varint 2⟩]

/-- No writer here gives these bytes, and they come through as they are, in an
envelope's content too. A signer that was certified so is nested as it is. -/
theorem certificates_round_trip_scattered :
    let signer : ServerCertificate := ⟨7, default, Small.reordered, [1]⟩
    let c : SenderCertificate := ⟨⟨"alice", 2⟩, 31337, default, signer, Small.scattered, [2, 2]⟩
    let content : SealedContent := ⟨.fallback, c, [8, 8]⟩
    let envelope : SealedEnvelope := ⟨default, [1, 2, 3], [4, 5]⟩
    let signed := SenderCertificate.content ⟨"bob", 4294967295⟩ 18446744073709551615 default signer
    signer.Obtained ∧ c.Obtained ∧ content.serialize.length < 1 <<< 64 ∧
      envelope.serialize.length < 1 <<< 64 ∧
      signed.length < 1 <<< 64 ∧
      SenderCertificate.ofSigned signed [3] =
        .ok ⟨⟨"bob", 4294967295⟩, 18446744073709551615, default, signer, signed, [3]⟩ ∧
      ServerCertificate.parse signer.serialize = .ok signer ∧
      SenderCertificate.parse c.serialize = .ok c ∧
      SealedContent.parse content.serialize = .ok content ∧
      SealedEnvelope.parse envelope.serialize = .ok envelope := by
  intro signer c content envelope signed
  have hreordered : Small.reordered.length < 1 <<< 64 := by decide +kernel
  have hscattered : Small.scattered.length < 1 <<< 64 := by decide +kernel
  have hsigner : signer.Obtained := by
    have hread : ServerCertificate.ofSigned Small.reordered [1] = .ok signer := by decide +kernel
    exact .signed hreordered (by decide) hread
  have hc : c.Obtained := by
    have hread : SenderCertificate.ofSigned Small.scattered [2, 2] = .ok c := by decide +kernel
    exact .signed hscattered (by decide) hread
  have hcontent : content.serialize.length < 1 <<< 64 := by decide +kernel
  have henvelope : envelope.serialize.length < 1 <<< 64 := by decide +kernel
  have hsigned : signed.length < 1 <<< 64 := by decide +kernel
  obtain ⟨-, hnested, hserver, hsender, hsealed, houter⟩ := certificates_round_trip
  exact ⟨hsigner, hc, hcontent, henvelope, hsigned, hnested _ _ _ _ _ hsigner hsigned,
    (hserver _ hsigner).1, (hsender _ hc).1, hsealed _ hc hcontent, houter _ henvelope⟩

end DoubleRatchet
