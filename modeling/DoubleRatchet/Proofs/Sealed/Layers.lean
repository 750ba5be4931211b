import DoubleRatchet.Proofs.Cipher.Gcm
import DoubleRatchet.Proofs.Session.Agreement
import DoubleRatchet.Proofs.Wire.Certificate
import DoubleRatchet.Sealed.Seal

/-!
# The layers come off as they were put on

Both ends of a layer derive its keys from one agreement and one salt. So the
recipient of an envelope reads the sender's identity out of the outer layer and,
with it, the content out of the inner one. The same agreement opens a fallback.
Main statement: `Seal.unwrap_wrap`.
-/
namespace DoubleRatchet.Seal

variable [Suite]

@[simp] theorem length_layerTag (keys : LayerKeys) (data : Bytes) :
    (layerTag keys data).length = tagLength := by
  rw [layerTag, List.length_take, (Suite.mac _ _).length_eq]
  rfl

@[simp] theorem length_encryptLayer (keys : LayerKeys) (plain : Bytes) :
    (encryptLayer keys plain).length = plain.length + tagLength := by
  rw [encryptLayer, List.length_append, length_layerTag, Ctr.length_apply]

theorem decryptLayer_encryptLayer (keys : LayerKeys) (plain : Bytes) :
    decryptLayer keys (encryptLayer keys plain) = .ok plain := by
  have hlong : ¬ plain.length + tagLength < tagLength := by omega
  have hdata : (encryptLayer keys plain).take plain.length =
      Ctr.apply (Suite.cipher keys.cipherKey) Ctr.fromZero plain :=
    List.take_left' (Ctr.length_apply ..)
  have htag : (encryptLayer keys plain).drop plain.length =
      layerTag keys (Ctr.apply (Suite.cipher keys.cipherKey) Ctr.fromZero plain) :=
    List.drop_left' (Ctr.length_apply ..)
  simp only [decryptLayer, length_encryptLayer, if_neg hlong, Nat.add_sub_cancel,
    hdata, htag, if_true, Ctr.apply_apply]

/-- The content is part of the envelope, as long as it is written. -/
theorem length_wrap {ephemeral our : KeyPair} {recipient : PublicKey} {content : SealedContent}
    {e : SealedEnvelope} (h : wrap ephemeral recipient our content = .ok e) :
    e.encryptedMessage.length = content.serialize.length + tagLength := by
  obtain ⟨outer, -, h⟩ := bind_ok.mp h
  obtain ⟨inner, -, h⟩ := bind_ok.mp h
  cases h
  exact length_encryptLayer inner content.serialize

section Ends

variable [Suite.Lawful] {a b : KeyPair}

/-- Two genuine pairs derive the keys of a layer alike, whichever of them is ours. -/
theorem derive_agree (ha : a.Genuine) (hb : b.Genuine) (salt : Bytes) :
    ∃ keys, LayerKeys.derive b.publicKey a.privateKey salt = .ok keys ∧
      LayerKeys.derive a.publicKey b.privateKey salt = .ok keys := by
  obtain ⟨secret, hours, htheirs⟩ := ha.agree hb
  unfold LayerKeys.derive
  rw [hours, htheirs]
  exact ⟨_, rfl, rfl⟩

theorem fallbackKey_agree (ha : a.Genuine) (hb : b.Genuine) :
    ∃ key, fallbackKey a.privateKey b.publicKey = .ok key ∧
      fallbackKey b.privateKey a.publicKey = .ok key := by
  obtain ⟨secret, hours, htheirs⟩ := ha.agree hb
  unfold fallbackKey
  rw [hours, htheirs]
  exact ⟨_, rfl, rfl⟩

/-- A fallback opens under the agreement that it was sealed under. -/
theorem fallbackDecrypt_fallbackEncrypt (ha : a.Genuine) (hb : b.Genuine) {key : Octets 32}
    (hkey : fallbackKey a.privateKey b.publicKey = .ok key) (nonce : Octets 12) (plain : Bytes) :
    fallbackDecrypt b.privateKey a.publicKey (fallbackEncrypt key nonce plain) = .ok plain := by
  obtain ⟨shared, hours, htheirs⟩ := fallbackKey_agree ha hb
  obtain rfl : shared = key := Except.ok.inj (hours.symm.trans hkey)
  have hlong : ¬ (fallbackEncrypt shared nonce plain).length < 12 + 16 := by
    rw [fallbackEncrypt, List.length_append, nonce.length_eq, Gcm.length_encrypt]
    omega
  have hnonce : (fallbackEncrypt shared nonce plain).take 12 = nonce.toList :=
    List.take_left' nonce.length_eq
  have hdata : (fallbackEncrypt shared nonce plain).drop 12 =
      Gcm.encrypt (Suite.cipher shared) nonce [] plain :=
    List.drop_left' nonce.length_eq
  simp only [fallbackDecrypt, if_neg hlong, hnonce, hdata, Octets.ofList?_toList, htheirs,
    mapError_of_ok, bind, Except.bind, Gcm.decrypt_encrypt]
  rfl

/-- The recipient finds the sender's identity and the content that was sealed. -/
theorem unwrap_wrap {ephemeral our recipient : KeyPair} (hephemeral : ephemeral.Genuine)
    (hour : our.Genuine) (hrecipient : recipient.Genuine) {content : SealedContent}
    {e : SealedEnvelope} (hcontent : SealedContent.parse content.serialize = .ok content)
    (h : wrap ephemeral recipient.publicKey our content = .ok e) :
    unwrap e recipient = .ok (our.publicKey, content) := by
  obtain ⟨outer, houter, houter'⟩ :=
    derive_agree hephemeral hrecipient (outerSalt recipient.publicKey ephemeral.publicKey)
  obtain ⟨inner, hinner, hinner'⟩ :=
    derive_agree hour hrecipient
      (innerSalt outer.chaining (encryptLayer outer our.publicKey.wire.toList))
  simp only [wrap, houter, hinner, bind, Except.bind] at h
  cases h
  simp only [unwrap, houter', hinner', mapError_of_ok, bind, Except.bind, decryptLayer_encryptLayer,
    PublicKey.decode_wire, hcontent]
  rfl

end Ends

end DoubleRatchet.Seal
