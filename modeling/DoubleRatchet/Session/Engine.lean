import DoubleRatchet.PreKey
import DoubleRatchet.Session.Agreement
import DoubleRatchet.Session.Exchange

/-!
# The session engine

Operations of a device with its peers. Each one works on a copy of the stored
record and writes it back after its last check, so that a refused message or a
refused bundle leaves the stores as they were. Nothing is encrypted to or
accepted from an identity other than the pinned one.
-/
namespace DoubleRatchet.Engine

variable [Suite]

/-- Refuses an identity that is not the pinned one. -/
def checkTrust (peer : Address) (identity : PublicKey) : Action SessionError Unit := do
  if !(← Action.stores).isTrusted peer identity then throw (.session (.untrustedIdentity peer))

/-- Pins an identity and stores a record. -/
def commit (peer : Address) (identity : PublicKey) (r : Record) : Action SessionError Unit :=
  Action.update fun s => (s.saveIdentity peer identity).storeSession peer r

/-- Starts a session with a peer from its bundle. -/
def processBundle (c : Config) (peer : Address) (b : Bundle) : Action SessionError Unit := do
  checkTrust peer b.identityKey
  if !b.hasValidSignature then throw (.session .badSignature)
  let stores ← Action.stores
  let base ← Action.draw Draw.keyPair
  let sending ← Action.draw Draw.keyPair
  let initiator : Initiator :=
    ⟨stores.identity.keyPair, base, b.identityKey, b.signedPreKey,
      b.preKey.map Prod.snd, b.signedPreKey⟩
  let state ← Action.ofExcept ((initiator.state sending).mapError .ofKey)
  let state := { state with
    pending := some ⟨b.preKey.map Prod.fst, b.signedPreKeyId, base.publicKey⟩
    localRegistrationId := stores.identity.registrationId
    remoteRegistrationId := b.registrationId }
  commit peer b.identityKey ((stores.loadSession peer).promote state c.maxArchivedStates)

/-- The responder's state for a first message, from the pre-keys that it names. -/
def respond (s : Stores) (m : PreKeyMessage) : Except SessionError State := do
  let signed ← s.loadSignedPreKey m.signedPreKeyId
  let oneTime ← m.preKeyId.mapM s.loadPreKey
  let responder : Responder :=
    ⟨s.identity.keyPair, signed.keyPair, oneTime.map PreKeyRecord.keyPair,
      signed.keyPair, m.identityKey, m.baseKey⟩
  let state ← responder.state.mapError .ofKey
  return { state with
    localRegistrationId := s.identity.registrationId
    remoteRegistrationId := m.registrationId }

/-- The record in which a first message is to be read, and the one-time
pre-key that it uses up. A base key that the record knows makes no new state. -/
def prepare (c : Config) (s : Stores) (peer : Address) (r : Record) (m : PreKeyMessage) :
    Except SessionError (Record × Option UInt32) := do
  if !s.isTrusted peer m.identityKey then throw (.session (.untrustedIdentity peer))
  if r.hasState m.version m.baseKey then return (r, none)
  let state ← respond s m
  return (r.promote state c.maxArchivedStates, m.preKeyId)

/-- Encrypts a message to a peer. -/
def encrypt (peer : Address) (plain : Bytes) : Action SessionError Message := do
  let r := (← Action.stores).loadSession peer
  match r.current with
  | none => throw (.session (.noSession peer))
  | some state =>
    let (message, after) ← Action.ofExcept (state.encrypt plain)
    checkTrust peer state.remoteIdentity
    commit peer state.remoteIdentity { r with current := some after }
    return message

/-- Decrypts an ordinary message; `now` is in unix seconds. -/
def decryptRatchet (c : Config) (now : UInt64) (peer : Address) (m : RatchetMessage) :
    Action SessionError Bytes := do
  let stores ← Action.stores
  let (plain, r) ← Action.attempt ((stores.loadSession peer).decrypt c now peer m)
  match r.current with
  | none => throw (.session (.invalidState .decryptedWithoutCurrent))
  | some state =>
    checkTrust peer state.remoteIdentity
    commit peer state.remoteIdentity r
    return plain

/-- Decrypts a first message, and removes the one-time pre-key that it uses up. -/
def decryptPreKey (c : Config) (now : UInt64) (peer : Address) (m : PreKeyMessage) :
    Action SessionError Bytes := do
  let stores ← Action.stores
  let (r, used) ← Action.ofExcept (prepare c stores peer (stores.loadSession peer) m)
  let (plain, r) ← Action.attempt (r.decrypt c now peer m.message)
  commit peer m.identityKey r
  if let some id := used then Action.update (·.removePreKey id)
  return plain

def decrypt (c : Config) (now : UInt64) (peer : Address) : Message → Action SessionError Bytes
  | .ratchet m => decryptRatchet c now peer m
  | .preKey m => decryptPreKey c now peer m

/-- The current state of the session with a peer. -/
def currentState (s : Stores) (peer : Address) : Except SessionError State :=
  match (s.loadSession peer).current with
  | some state => .ok state
  | none => .error (.session (.noSession peer))

/-- Starts a session from a published bundle and its first one-time key. -/
def establish (c : Config) (peer : Address) (p : PublishedBundle) : Action SessionError Unit := do
  processBundle c peer (← Action.ofExcept (Bundle.ofPublished p none))

/-- Encrypts a message and gives its bytes with the number of its kind. -/
def encryptBytes (peer : Address) (plain : Bytes) : Action SessionError (Bytes × UInt8) := do
  let m ← encrypt peer plain
  return (m.serialized, m.kind.number)

/-- Decrypts the bytes of a message that came with the number of its kind. -/
def decryptBytes (c : Config) (now : UInt64) (peer : Address) (bs : Bytes) (number : UInt8) :
    Action SessionError Bytes := do
  decrypt c now peer (← Action.ofExcept ((Message.parse number bs).mapError .ofWire))

end DoubleRatchet.Engine
