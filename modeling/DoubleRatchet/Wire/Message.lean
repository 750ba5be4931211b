import DoubleRatchet.Suite
import DoubleRatchet.Wire.Protobuf

/-!
# Ratchet messages

An ordinary message carries the sender's ratchet key, two counters and the
encrypted body, behind a version byte and before a truncated tag over the
identities and everything in front of it. The first messages of a session are
ordinary ones wrapped with what the recipient needs to build its side.

A message keeps the bytes it was made as or read from, because its tag is over
them.
-/
namespace DoubleRatchet

/-- The version of the messages that are written and read. -/
def currentVersion : UInt8 := 3

/-- The version of the message above, the current version below. -/
def versionByte (version : UInt8) : UInt8 := ((version &&& 15) <<< 4) ||| currentVersion

/-- The version of a message from its first byte. -/
def checkVersionByte (byte : UInt8) : Except WireFault UInt8 :=
  let version := byte >>> 4
  if version < currentVersion then .error (.legacyVersion version)
  else if currentVersion < version then .error (.unrecognizedVersion version)
  else .ok version

/-- Reads a key in wire form. -/
def readPoint (bs : Bytes) : Except WireFault PublicKey :=
  (PublicKey.ofWire bs).mapError .badKeyEncoding

structure RatchetMessage where
  version : UInt8
  ratchetKey : PublicKey
  counter : UInt32
  previousCounter : UInt32
  body : Bytes
  serialized : Bytes
deriving DecidableEq

namespace RatchetMessage

/-- The length of the tag at the end. -/
def tagLength : Nat := 8

def fields (ratchetKey : PublicKey) (counter previousCounter : UInt32)
    (body : Bytes) : Protobuf.Fields :=
  [⟨1, .bytes ratchetKey.wire.toList⟩, ⟨2, .varint counter.toNat⟩,
    ⟨3, .varint previousCounter.toNat⟩, ⟨4, .bytes body⟩]

/-- The tag over both identities and the bytes in front of it. -/
def tag [Suite] (sender receiver : PublicKey) (macKey content : Bytes) : Bytes :=
  (Suite.mac macKey (sender.wire.toList ++ receiver.wire.toList ++ content)).toList.take tagLength

/-- Writes a message from one identity to another. -/
def make [Suite] (version : UInt8) (macKey : Bytes) (ratchetKey : PublicKey)
    (counter previousCounter : UInt32) (body : Bytes)
    (sender receiver : PublicKey) : RatchetMessage :=
  let content := versionByte version :: (fields ratchetKey counter previousCounter body).write
  ⟨version, ratchetKey, counter, previousCounter, body,
    content ++ tag sender receiver macKey content⟩

/-- Whether the tag is the one for these identities and this key. -/
def verify [Suite] (m : RatchetMessage) (sender receiver : PublicKey) (macKey : Bytes) : Bool :=
  let split := m.serialized.length - tagLength
  tag sender receiver macKey (m.serialized.take split) = m.serialized.drop split

/-- Reads a message; its tag is not looked at. -/
def parse (bs : Bytes) : Except WireFault RatchetMessage := do
  match bs with
  | [] => throw (.messageTooShort (tagLength + 1) 0)
  | first :: rest =>
    if bs.length < tagLength + 1 then throw (.messageTooShort (tagLength + 1) bs.length)
    let version ← checkVersionByte first
    let fs ← Protobuf.fields (rest.take (rest.length - tagLength))
    let key ← fs.bytes 1
    let counter ← fs.uint32 2
    let previous ← fs.uint32 3
    let body ← fs.bytes 4
    let ratchetKey ← readPoint (← Protobuf.required "ratchet_key" key)
    let counter ← Protobuf.required "counter" counter
    let body ← Protobuf.required "ciphertext" body
    return ⟨version, ratchetKey, counter, previous.getD 0, body, bs⟩

end RatchetMessage

structure PreKeyMessage where
  version : UInt8
  registrationId : UInt32
  preKeyId : Option UInt32
  signedPreKeyId : UInt32
  baseKey : PublicKey
  identityKey : PublicKey
  message : RatchetMessage
  serialized : Bytes
deriving DecidableEq

namespace PreKeyMessage

def fields (registrationId : UInt32) (preKeyId : Option UInt32) (signedPreKeyId : UInt32)
    (baseKey identityKey : PublicKey) (message : Bytes) : Protobuf.Fields :=
  (preKeyId.toList.map fun id => ⟨1, .varint id.toNat⟩) ++
    [⟨2, .bytes baseKey.wire.toList⟩, ⟨3, .bytes identityKey.wire.toList⟩, ⟨4, .bytes message⟩,
      ⟨5, .varint registrationId.toNat⟩, ⟨6, .varint signedPreKeyId.toNat⟩]

def make (version : UInt8) (registrationId : UInt32) (preKeyId : Option UInt32)
    (signedPreKeyId : UInt32) (baseKey identityKey : PublicKey)
    (message : RatchetMessage) : PreKeyMessage :=
  ⟨version, registrationId, preKeyId, signedPreKeyId, baseKey, identityKey, message,
    versionByte version ::
      (fields registrationId preKeyId signedPreKeyId baseKey identityKey message.serialized).write⟩

def parse (bs : Bytes) : Except WireFault PreKeyMessage := do
  match bs with
  | [] => throw (.messageTooShort 1 0)
  | first :: rest =>
    let version ← checkVersionByte first
    let fs ← Protobuf.fields rest
    let preKeyId ← fs.uint32 1
    let baseKey ← fs.bytes 2
    let identityKey ← fs.bytes 3
    let message ← fs.bytes 4
    let registrationId ← fs.uint32 5
    let signedPreKeyId ← fs.uint32 6
    let signedPreKeyId ← Protobuf.required "signed_pre_key_id" signedPreKeyId
    let baseKey ← readPoint (← Protobuf.required "base_key" baseKey)
    let identityKey ← readPoint (← Protobuf.required "identity_key" identityKey)
    let message ← RatchetMessage.parse (← Protobuf.required "message" message)
    return ⟨version, registrationId.getD 0, preKeyId, signedPreKeyId, baseKey,
      identityKey, message, bs⟩

end PreKeyMessage

/-- The two kinds of message. -/
inductive MessageKind
  | whisper
  | preKey
deriving DecidableEq

namespace MessageKind

def number : MessageKind → UInt8
  | whisper => 2
  | preKey => 3

def ofNumber (n : UInt8) : Except WireFault MessageKind :=
  if n = 2 then .ok whisper else if n = 3 then .ok preKey else .error (.unknownMessageType n)

@[simp] theorem ofNumber_number (k : MessageKind) : ofNumber k.number = .ok k := by
  cases k <;> rfl

def name : MessageKind → String
  | whisper => "Whisper"
  | preKey => "PreKey"

end MessageKind

/-- A message of either kind. -/
inductive Message
  | ratchet (m : RatchetMessage)
  | preKey (m : PreKeyMessage)
deriving DecidableEq

namespace Message

def kind : Message → MessageKind
  | ratchet _ => .whisper
  | preKey _ => .preKey

def serialized : Message → Bytes
  | ratchet m => m.serialized
  | preKey m => m.serialized

def parseKind (kind : MessageKind) (bs : Bytes) : Except WireFault Message :=
  match kind with
  | .whisper => ratchet <$> RatchetMessage.parse bs
  | .preKey => preKey <$> PreKeyMessage.parse bs

/-- Reads a message that travelled with the number of its kind. -/
def parse (number : UInt8) (bs : Bytes) : Except WireFault Message := do
  parseKind (← MessageKind.ofNumber number) bs

end Message

end DoubleRatchet
