import DoubleRatchet.Stores
import DoubleRatchet.Wire.Bundle

/-!
# Pre-keys and bundles

One-time pre-keys serve the first message of one session each; a signed pre-key
serves for a while and carries the identity key's signature. A bundle is what
an initiator takes from the published keys of a party.
-/
namespace DoubleRatchet

variable [Suite]

/-- A peer's published keys, read and ready for a session, with one one-time pre-key at most. -/
structure Bundle where
  registrationId : UInt32
  deviceId : UInt32
  preKey : Option (UInt32 × PublicKey)
  signedPreKeyId : UInt32
  signedPreKey : PublicKey
  signature : Bytes
  identityKey : PublicKey
deriving DecidableEq

namespace Bundle

/-- Whether the identity key signed the signed pre-key. -/
def hasValidSignature (b : Bundle) : Bool :=
  b.identityKey.verifies b.signedPreKey.wire.toList b.signature

/-- The published one-time key with an identifier, or the first one if none is named. -/
def choose (preKeys : List PublishedPreKey) (preKeyId : Option UInt32) :
    Except SessionError (Option PublishedPreKey) :=
  match preKeyId with
  | none => .ok preKeys.head?
  | some id =>
    match preKeys.find? (·.id = id) with
    | some k => .ok (some k)
    | none => .error (.message (.unknownPreKey id))

def ofPublished (p : PublishedBundle) (preKeyId : Option UInt32) : Except SessionError Bundle := do
  let identityKey ← (PublicKey.decode p.identityKey).mapError .ofKey
  let signedPreKey ← (PublicKey.decode p.signedPreKey).mapError .ofKey
  let chosen ← choose p.preKeys preKeyId
  let preKey ← chosen.mapM fun k => return (k.id, ← (PublicKey.decode k.key).mapError .ofKey)
  return ⟨p.registrationId, p.deviceId, preKey, p.signedPreKeyId, signedPreKey,
    p.signature, identityKey⟩

end Bundle

namespace PreKeys

/-- The supply of one-time pre-keys of a new device. -/
def initialCount : Nat := 100

/-- The number of remaining one-time pre-keys below which more are made. -/
def replenishThreshold : Nat := 10

/-- How many one-time pre-keys bring the supply back, or none while it lasts. -/
def missing (s : Stores) : Nat :=
  let remaining := s.preKeys.size
  if remaining < replenishThreshold then initialCount - remaining else 0

def publish (r : PreKeyRecord) : PublishedPreKey := ⟨r.id, r.keyPair.publicKey.wire.toList⟩

/-- Makes, stores and publishes one-time pre-keys with identifiers from `id` on. -/
def generate : (id count : Nat) → Action SessionError (List PublishedPreKey)
  | _, 0 => return []
  | id, count + 1 => do
    if UInt32.size ≤ id then throw (.session (.invalidState .preKeyIdsExhausted))
    let record : PreKeyRecord := ⟨UInt32.ofNat id, ← Action.draw Draw.keyPair⟩
    Action.update (·.storePreKey record.id record)
    return publish record :: (← generate (id + 1) count)

/-- The identifier of the next signed pre-key. -/
def nextSignedId (s : Stores) : Except SessionError UInt32 :=
  match s.signedPreKeys.maxKey? with
  | none => .ok 1
  | some id =>
    if id.toNat = UInt32.size - 1 then .error (.session (.invalidState .signedPreKeyIdsExhausted))
    else .ok (id + 1)

/-- A key pair with the identity's signature over its wire form. -/
def generateSigned (id : UInt32) (identity : KeyPair) (now : UInt64) : Draw SignedPreKeyRecord := do
  let pair ← Draw.keyPair
  let signature ← Draw.signature identity.privateKey pair.publicKey.wire.toList
  return ⟨id, now, pair, signature.toList⟩

/-- The published form of a signed pre-key with a list of one-time keys. -/
def bundle (s : Stores) (deviceId : UInt32) (signed : SignedPreKeyRecord)
    (preKeys : List PublishedPreKey) :
    PublishedBundle :=
  ⟨s.identity.registrationId, deviceId, s.identity.keyPair.publicKey.wire.toList, signed.id,
    signed.keyPair.publicKey.wire.toList, signed.signature, preKeys⟩

/-- Makes and stores one-time pre-keys and then a signed one, and publishes both. -/
def generateBundle (deviceId start : UInt32) (count : Nat) (now : UInt64) :
    Action SessionError PublishedBundle := do
  let identity := (← Action.stores).identity.keyPair
  let preKeys ← generate start.toNat count
  let id ← Action.ofExcept (nextSignedId (← Action.stores))
  let signed ← Action.draw (generateSigned id identity now)
  Action.update (·.storeSignedPreKey id signed)
  return bundle (← Action.stores) deviceId signed preKeys

/-- The latest signed pre-key and all one-time pre-keys that remain. -/
def currentBundle (s : Stores) (deviceId : UInt32) : Except SessionError PublishedBundle :=
  match s.latestSignedPreKey? with
  | some signed => .ok (bundle s deviceId signed (s.preKeys.values.map publish))
  | none => .error (.session (.invalidState .noSignedPreKey))

end PreKeys

end DoubleRatchet
