import DoubleRatchet.Proofs.Suite
import DoubleRatchet.Proofs.Wire.Certificate
import DoubleRatchet.Sealed.Authority

/-!
# Issued certificates are valid

A certificate that a server of the trust root issues says what it was issued
for, and is accepted until it expires. Main statement: `Issued.valid`.
-/
namespace DoubleRatchet

variable [Suite]

omit [Suite] in
theorem length_signature_lt (signature : Octets 64) : signature.toList.length < 1 <<< 64 := by
  rw [signature.length_eq]
  decide

omit [Suite] in
theorem ServerCertificate.length_content_le (keyId : UInt32) (key : PublicKey) :
    (content keyId key).length ≤ 63 := by
  have hid := Protobuf.Field.length_write_varint_le 1 keyId.toNat
  have hkey := (Protobuf.Field.length_write_bytes 2 key.wire.toList).2
  rw [key.wire.length_eq] at hkey
  simp only [content, Protobuf.Fields.write, List.flatMap_cons, List.flatMap_nil,
    List.length_append, List.length_nil]
  omega

omit [Suite] in
/-- Beside the name and the signer there are few bytes. -/
theorem SenderCertificate.length_content_le (sender : Address) (expires : UInt64)
    (identityKey : PublicKey) (signer : ServerCertificate) :
    (content sender expires identityKey signer).length ≤
      (utf8 sender.name).length + signer.serialize.length + 106 := by
  have hname := (Protobuf.Field.length_write_bytes 1 (utf8 sender.name)).2
  have hdevice := Protobuf.Field.length_write_varint_le 2 sender.device.toNat
  have hexpires := Protobuf.Field.length_write_fixed64_le 3 expires.toNat
  have hkey := (Protobuf.Field.length_write_bytes 4 identityKey.wire.toList).2
  have hsigner := (Protobuf.Field.length_write_bytes 5 signer.serialize).2
  rw [identityKey.wire.length_eq] at hkey
  simp only [content, Protobuf.Fields.write, List.flatMap_cons, List.flatMap_nil,
    List.length_append, List.length_nil]
  omega

theorem ServerCertificate.issue_eq (root : PrivateKey) (keyId : UInt32) (key : PublicKey)
    (e : Entropy) :
    (issue root keyId key e).1 =
      .ok ⟨keyId, key, content keyId key, (Draw.signature root (content keyId key) e).1.toList⟩ :=
  ofSigned_content keyId key _

/-- So what a server presents is short. -/
theorem ServerCertificate.length_issued {root : PrivateKey} {keyId : UInt32} {key : PublicKey}
    {e : Entropy} {c : ServerCertificate} (h : (issue root keyId key e).1 = .ok c) :
    c.serialize.length ≤ 157 := by
  rw [issue_eq] at h
  cases h
  have hcontent := length_content_le keyId key
  have hcertificate := (Protobuf.Field.length_write_bytes 1 (content keyId key)).2
  have hsignature :=
    (Protobuf.Field.length_write_bytes 2 (Draw.signature root (content keyId key) e).1.toList).2
  rw [(Draw.signature root (content keyId key) e).1.length_eq] at hsignature
  simp only [serialize, toFields, Protobuf.Fields.write, List.flatMap_cons,
    List.flatMap_nil, List.length_append, List.length_nil]
  omega

/-- What the root issues is the key with a good signature of its own. -/
theorem ServerCertificate.issue_ok {root : PrivateKey} (hroot : root.Signs) {keyId : UInt32}
    {key : PublicKey} {e : Entropy} {c : ServerCertificate}
    (h : (issue root keyId key e).1 = .ok c) :
    c.key = key ∧ c.WellFormed ∧
      (Suite.publicKey root).verifies c.certificate c.signature = true := by
  rw [issue_eq] at h
  cases h
  have hlength : (content keyId key).length < 1 <<< 64 :=
    Nat.lt_of_le_of_lt (length_content_le keyId key) (by decide)
  exact ⟨rfl, ⟨ofSigned_content keyId key _, hlength, length_signature_lt _⟩, hroot.verifies _ _⟩

namespace SenderCertificate

/-- A certificate that was issued for an address and an identity key, by a
server whose key the root had signed. -/
def Issued (root server : PrivateKey) (sender : Address) (identityKey : PublicKey)
    (expires : UInt64) (c : SenderCertificate) : Prop :=
  ∃ keyId e signer e',
    (ServerCertificate.issue root keyId (Suite.publicKey server) e).1 = .ok signer ∧
    (issue signer server sender identityKey expires e').1 = .ok c

/-- For a name as it can be held in memory a certificate is issued. -/
theorem exists_issued {root server : PrivateKey} (hroot : root.Signs) (keyId : UInt32)
    (e e' : Entropy) {sender : Address} (hname : (utf8 sender.name).length < 1 <<< 63)
    (identityKey : PublicKey) (expires : UInt64) :
    ∃ signer c, (ServerCertificate.issue root keyId (Suite.publicKey server) e).1 = .ok signer ∧
      (issue signer server sender identityKey expires e').1 = .ok c ∧ signer.WellFormed ∧
      c.certificate.length < 1 <<< 64 := by
  obtain ⟨signer, hissued⟩ :
      ∃ signer, (ServerCertificate.issue root keyId (Suite.publicKey server) e).1 = .ok signer :=
    ⟨_, ServerCertificate.issue_eq root keyId (Suite.publicKey server) e⟩
  obtain ⟨-, hsigner, -⟩ := ServerCertificate.issue_ok hroot hissued
  have hserialize := ServerCertificate.length_issued hissued
  have hlength := length_content_le sender expires identityKey signer
  have hcontent : (content sender expires identityKey signer).length < 1 <<< 64 := by omega
  exact ⟨signer, _, hissued,
    ofSigned_content sender expires identityKey hsigner _ hcontent, hsigner, hcontent⟩

/-- It says what it was issued for, and is accepted until it expires and not after. -/
theorem Issued.valid {root server : PrivateKey} (hroot : root.Signs) (hsigns : server.Signs)
    {sender : Address} {identityKey : PublicKey} {expires : UInt64} {c : SenderCertificate}
    (h : c.Issued root server sender identityKey expires)
    (hlength : c.certificate.length < 1 <<< 64) :
    c.sender = sender ∧ c.identityKey = identityKey ∧ c.WellFormed ∧
      ∀ time, c.validate (Suite.publicKey root) time =
        if time ≤ expires then .ok () else .error .expired := by
  obtain ⟨keyId, e, signer, e', hserver, hsender⟩ := h
  obtain ⟨hkey, hsigner, hverifies⟩ := ServerCertificate.issue_ok hroot hserver
  have hsigned : ofSigned (content sender expires identityKey signer)
      (Draw.signature server (content sender expires identityKey signer) e').1.toList = .ok c :=
    hsender
  obtain ⟨hcertificate, -, -⟩ := ofSigned_ok hsigned
  rw [hcertificate] at hlength
  have hread := hsigned
  rw [ofSigned_content sender expires identityKey hsigner _ hlength] at hread
  cases hread
  have hserver : signer.key.verifies (content sender expires identityKey signer)
      (Draw.signature server (content sender expires identityKey signer) e').1.toList = true :=
    hkey ▸ hsigns.verifies _ _
  refine ⟨rfl, rfl, ⟨hsigned, hlength, length_signature_lt _⟩, fun time => ?_⟩
  simp only [validate, hverifies, hserver, Bool.not_true, Bool.false_eq_true,
    if_false, ← UInt64.not_lt, ite_not]

end SenderCertificate

end DoubleRatchet
