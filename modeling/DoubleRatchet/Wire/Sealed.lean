import DoubleRatchet.Wire.Certificate

/-!
# Sealed messages

The content of a sealed message is the sender's certificate and the message it
wraps. The envelope around it shows an ephemeral key only.
-/
namespace DoubleRatchet

open Protobuf

/-- What a sealed content carries. A fallback is encrypted to the recipient's
identity key, without a session. -/
inductive SealedKind
  | preKey
  | whisper
  | fallback
deriving DecidableEq

namespace SealedKind

def number : SealedKind → UInt32
  | preKey => 1
  | whisper => 2
  | fallback => 3

def ofNumber (n : UInt32) : Except WireFault SealedKind :=
  if n = 1 then .ok preKey else if n = 2 then .ok whisper else if n = 3 then .ok fallback
  else .error (.unknownSealedType n)

@[simp] theorem ofNumber_number (k : SealedKind) : ofNumber k.number = .ok k := by
  cases k <;> rfl

def name : SealedKind → String
  | preKey => "PreKey"
  | whisper => "Whisper"
  | fallback => "Fallback"

end SealedKind

structure SealedContent where
  kind : SealedKind
  certificate : SenderCertificate
  content : Bytes
deriving DecidableEq

namespace SealedContent

def serialize (c : SealedContent) : Bytes :=
  Fields.write [⟨1, .varint c.kind.number.toNat⟩, ⟨2, .bytes c.certificate.serialize⟩,
    ⟨3, .bytes c.content⟩]

def parse (bs : Bytes) : Except WireFault SealedContent := do
  let fs ← fields bs
  let kind ← fs.uint32 1
  let certificate ← (← fs.embedded 2).mapM ServerCertificate.parts
  let content ← fs.bytes 3
  let kind ← SealedKind.ofNumber (← required "type" kind)
  let certificate ← SenderCertificate.ofParts (← required "sender certificate" certificate)
  let content ← required "content" content
  return ⟨kind, certificate, content⟩

end SealedContent

structure SealedEnvelope where
  ephemeral : PublicKey
  encryptedStatic : Bytes
  encryptedMessage : Bytes
deriving DecidableEq

namespace SealedEnvelope

/-- The version of the layout, in the high half of the first byte. -/
def version : UInt8 := 1

def serialize (e : SealedEnvelope) : Bytes :=
  (version <<< 4 ||| version) :: Fields.write [⟨1, .bytes e.ephemeral.wire.toList⟩,
    ⟨2, .bytes e.encryptedStatic⟩, ⟨3, .bytes e.encryptedMessage⟩]

def parse (bs : Bytes) : Except WireFault SealedEnvelope := do
  match bs with
  | [] => throw (.messageTooShort 1 0)
  | first :: rest =>
    if first >>> 4 ≠ version then throw (.unrecognizedSealedVersion (first >>> 4))
    let fs ← fields rest
    let ephemeral ← fs.bytes 1
    let encryptedStatic ← fs.bytes 2
    let encryptedMessage ← fs.bytes 3
    let ephemeral ← readPoint (← required "ephemeral public" ephemeral)
    let encryptedStatic ← required "encrypted static" encryptedStatic
    let encryptedMessage ← required "encrypted message" encryptedMessage
    return ⟨ephemeral, encryptedStatic, encryptedMessage⟩

end SealedEnvelope

end DoubleRatchet
