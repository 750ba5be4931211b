import DoubleRatchet.Sealed.Authority
import DoubleRatchet.Sealed.Seal
import DoubleRatchet.Session.Engine

/-!
# Sealed messages between devices

Session messages that travel in sealed envelopes. The recipient learns who the
sender is from a certificate, and trusts it only after the certificate has been
checked and found to be for the key that sealed the envelope.
-/
namespace DoubleRatchet.SealedEngine

variable [Suite]

/-- The content for a recipient: a fallback, or the next message of the session. -/
def makeContent (destination : Address) (their : PublicKey) (plain : Bytes) (fallback : Bool) :
    Action SealedError (SealedKind × Bytes) := do
  if fallback then
    let our := (← Action.stores).identity.keyPair
    let key ← Action.ofExcept ((Seal.fallbackKey our.privateKey their).mapError .ofKey)
    let nonce ← Action.draw (Draw.octets 12)
    return (.fallback, Seal.fallbackEncrypt key nonce plain)
  else
    let m ← (Engine.encrypt destination plain).adapt .session
    return (match m.kind with | .preKey => .preKey | .whisper => .whisper, m.serialized)

/-- Encrypts a message for a peer and seals it with our certificate. -/
def encrypt (destination : Address) (certificate : SenderCertificate) (plain : Bytes)
    (fallback : Bool) :
    Action SealedError Bytes := do
  let stores ← Action.stores
  match stores.identity.known.get? destination with
  | none => throw (.unknownRecipient destination)
  | some their =>
    let (kind, content) ← makeContent destination their plain fallback
    let ephemeral ← Action.draw Draw.keyPair
    let envelope ← Action.ofExcept
      ((Seal.wrap ephemeral their stores.identity.keyPair
        ⟨kind, certificate, content⟩).mapError .ofKey)
    return envelope.serialize

/-- What a sealed envelope contained. -/
structure Opened where
  sender : Address
  kind : SealedKind
  plain : Bytes
deriving DecidableEq

/-- Decrypts the content of a sender whose certificate has been checked. -/
def decryptContent (c : Config) (now : UInt64) (sender : Address) (senderIdentity : PublicKey)
    (content : SealedContent) : Action SealedError Bytes := do
  match content.kind with
  | .fallback =>
    let our := (← Action.stores).identity.keyPair
    Action.ofExcept (Seal.fallbackDecrypt our.privateKey senderIdentity content.content)
  | .preKey =>
    let m ← Action.ofExcept ((PreKeyMessage.parse content.content).mapError .ofWire)
    (Engine.decryptPreKey c now sender m).adapt .session
  | .whisper =>
    let m ← Action.ofExcept ((RatchetMessage.parse content.content).mapError .ofWire)
    (Engine.decryptRatchet c now sender m).adapt .session

/-- Checks the certificate of a content against the trust root, the time and
the key that sealed it, and decrypts the content. -/
def decryptChecked (c : Config) (now : UInt64) (root : PublicKey) (time : UInt64)
    (senderIdentity : PublicKey) (content : SealedContent) : Action SealedError Bytes := do
  let certificate := content.certificate
  Action.ofExcept ((certificate.validate root time).mapError .invalidCertificate)
  if certificate.identityKey ≠ senderIdentity then throw .senderKeyMismatch
  decryptContent c now certificate.sender senderIdentity content

/-- Opens a sealed envelope addressed to us. `time` is checked against the
expiry of the certificate; `now`, in unix seconds, dates cached keys. -/
def decrypt (c : Config) (now : UInt64) (root : PublicKey) (input : Bytes) (time : UInt64)
    (localAddress : Address) : Action SealedError Opened := do
  let our := (← Action.stores).identity.keyPair
  let envelope ← Action.ofExcept ((SealedEnvelope.parse input).mapError .ofWire)
  let (senderIdentity, content) ← Action.ofExcept (Seal.unwrap envelope our)
  let sender := content.certificate.sender
  if sender = localAddress then throw .selfSend
  let plain ← (decryptChecked c now root time senderIdentity content).adapt
      (.knownSender sender content.kind)
  return ⟨sender, content.kind, plain⟩

end DoubleRatchet.SealedEngine
