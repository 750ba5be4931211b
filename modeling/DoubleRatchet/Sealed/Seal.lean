import DoubleRatchet.Cipher.Gcm
import DoubleRatchet.Hash.Hkdf
import DoubleRatchet.Sealed.Fault

/-!
# The layers of a sealed envelope

An agreement between a fresh key and the recipient's identity seals the
sender's identity; an agreement between the two identities seals the content.
Each layer is encrypted in counter mode and carries a truncated tag. The
session-less fallback encrypts straight to the recipient's identity.
-/
namespace DoubleRatchet.Seal

variable [Suite]

/-- The keys of one layer; the chaining part of the inner layer is not used. -/
structure LayerKeys where
  chaining : Octets 32
  cipherKey : Octets 32
  macKey : Octets 32

def LayerKeys.derive (their : PublicKey) (our : PrivateKey)
    (salt : Bytes) : Except KeyFault LayerKeys := do
  let secret ← our.agree their
  let okm := Hkdf.derive salt secret.toList [] 96
  return ⟨okm.slice 0 32 (by decide), okm.slice 32 32 (by decide), okm.slice 64 32 (by decide)⟩

/-- The salt of the outer layer names both of its keys. -/
def outerSalt (recipient ephemeral : PublicKey) : Bytes :=
  utf8 "UnidentifiedDelivery" ++ recipient.wire.toList ++ ephemeral.wire.toList

/-- The salt of the inner layer depends on the outer one. -/
def innerSalt (chaining : Octets 32) (encryptedStatic : Bytes) : Bytes :=
  chaining.toList ++ encryptedStatic

/-- The length of the tag at the end of a layer. -/
def tagLength : Nat := 10

def layerTag (keys : LayerKeys) (data : Bytes) : Bytes :=
  (Suite.mac keys.macKey.toList data).toList.take tagLength

def encryptLayer (keys : LayerKeys) (plain : Bytes) : Bytes :=
  let data := Ctr.apply (Suite.cipher keys.cipherKey) Ctr.fromZero plain
  data ++ layerTag keys data

def decryptLayer (keys : LayerKeys) (input : Bytes) : Except SealedError Bytes :=
  if input.length < tagLength then .error .invalid
  else
    let data := input.take (input.length - tagLength)
    if layerTag keys data = input.drop (input.length - tagLength) then
      .ok (Ctr.apply (Suite.cipher keys.cipherKey) Ctr.fromZero data)
    else .error .invalid

/-- Seals a content from our identity to a recipient's, with a fresh pair. -/
def wrap (ephemeral : KeyPair) (recipient : PublicKey) (our : KeyPair) (content : SealedContent) :
    Except KeyFault SealedEnvelope := do
  let outer ←
    LayerKeys.derive recipient ephemeral.privateKey (outerSalt recipient ephemeral.publicKey)
  let encryptedStatic := encryptLayer outer our.publicKey.wire.toList
  let inner ← LayerKeys.derive recipient our.privateKey (innerSalt outer.chaining encryptedStatic)
  return ⟨ephemeral.publicKey, encryptedStatic, encryptLayer inner content.serialize⟩

/-- The sender's identity key and the content of an envelope sealed to our identity. -/
def unwrap (e : SealedEnvelope) (our : KeyPair) :
    Except SealedError (PublicKey × SealedContent) := do
  let outer ← (LayerKeys.derive e.ephemeral our.privateKey
    (outerSalt our.publicKey e.ephemeral)).mapError .ofKey
  let static ← decryptLayer outer e.encryptedStatic
  let sender ← (PublicKey.decode static).mapError fun _ => .invalid
  let salt := innerSalt outer.chaining e.encryptedStatic
  let inner ← (LayerKeys.derive sender our.privateKey salt).mapError .ofKey
  let content ← decryptLayer inner e.encryptedMessage
  let content ← (SealedContent.parse content).mapError fun _ => .invalid
  return (sender, content)

def fallbackKey (our : PrivateKey) (their : PublicKey) : Except KeyFault (Octets 32) := do
  return Hkdf.derive [] (← our.agree their).toList (utf8 "AxolotlFallbackCipher") 32

/-- The nonce in front of the authenticated ciphertext. -/
def fallbackEncrypt (key : Octets 32) (nonce : Octets 12) (plain : Bytes) : Bytes :=
  nonce.toList ++ Gcm.encrypt (Suite.cipher key) nonce [] plain

def fallbackDecrypt (our : PrivateKey) (their : PublicKey)
    (data : Bytes) : Except SealedError Bytes := do
  if data.length < 12 + 16 then throw .invalid
  let key ← (fallbackKey our their).mapError .ofKey
  match Octets.ofList? 12 (data.take 12) with
  | none => throw .invalid
  | some nonce =>
    match Gcm.decrypt (Suite.cipher key) nonce [] (data.drop 12) with
    | some plain => return plain
    | none => throw .invalid

end DoubleRatchet.Seal
