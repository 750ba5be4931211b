import DoubleRatchet.Entropy
import DoubleRatchet.Session.Record

/-!
# Stores

What a device keeps: its identity and the identities of its peers, its one-time
and signed pre-keys, and a session record for each peer device. A peer's
identity is trusted on first use and pinned from then on.
-/
namespace DoubleRatchet

structure PreKeyRecord where
  id : UInt32
  keyPair : KeyPair
deriving DecidableEq

structure SignedPreKeyRecord where
  id : UInt32
  /-- Unix milliseconds at which it was made. -/
  timestamp : UInt64
  keyPair : KeyPair
  signature : Bytes
deriving DecidableEq

structure IdentityStore where
  keyPair : KeyPair
  registrationId : UInt32
  /-- Identities of other parties, pinned at first contact. -/
  known : Table Address PublicKey := .empty

structure Stores where
  identity : IdentityStore
  preKeys : Table UInt32 PreKeyRecord := .empty
  signedPreKeys : Table UInt32 SignedPreKeyRecord := .empty
  sessions : Table Address Record := .empty

namespace Stores

/-- The stores of a new device. -/
def create (keyPair : KeyPair) (registrationId : UInt32) : Stores :=
  { identity := ⟨keyPair, registrationId, .empty⟩ }

/-- Whether an identity is the pinned one, or none is pinned. -/
def isTrusted (s : Stores) (peer : Address) (identity : PublicKey) : Bool :=
  match s.identity.known.get? peer with
  | none => true
  | some pinned => pinned = identity

def saveIdentity (s : Stores) (peer : Address) (identity : PublicKey) : Stores :=
  { s with identity := { s.identity with known := s.identity.known.insert peer identity } }

/-- Whether saving this identity would replace another one. -/
def replacesIdentity (s : Stores) (peer : Address) (identity : PublicKey) : Bool :=
  !s.isTrusted peer identity

def loadPreKey (s : Stores) (id : UInt32) : Except SessionError PreKeyRecord :=
  match s.preKeys.get? id with
  | some r => .ok r
  | none => .error (.message (.unknownPreKey id))

def storePreKey (s : Stores) (id : UInt32) (r : PreKeyRecord) : Stores :=
  { s with preKeys := s.preKeys.insert id r }

def removePreKey (s : Stores) (id : UInt32) : Stores := { s with preKeys := s.preKeys.erase id }

def loadSignedPreKey (s : Stores) (id : UInt32) : Except SessionError SignedPreKeyRecord :=
  match s.signedPreKeys.get? id with
  | some r => .ok r
  | none => .error (.message (.unknownSignedPreKey id))

def storeSignedPreKey (s : Stores) (id : UInt32) (r : SignedPreKeyRecord) : Stores :=
  { s with signedPreKeys := s.signedPreKeys.insert id r }

/-- The later of two records; of equal times the second. -/
def SignedPreKeyRecord.later (a b : SignedPreKeyRecord) : SignedPreKeyRecord :=
  if b.timestamp < a.timestamp then a else b

/-- The signed pre-key with the latest time, and of these the one with the highest id. -/
def latestSignedPreKey? (s : Stores) : Option SignedPreKeyRecord :=
  match s.signedPreKeys.values with
  | [] => none
  | r :: rs => some (rs.foldl SignedPreKeyRecord.later r)

/-- The record of a peer device, a fresh one if there is none. -/
def loadSession (s : Stores) (peer : Address) : Record := (s.sessions.get? peer).getD {}

def storeSession (s : Stores) (peer : Address) (r : Record) : Stores :=
  { s with sessions := s.sessions.insert peer r }

/-- Whether there is a current state for a peer device. -/
def hasSession (s : Stores) (peer : Address) : Bool := (s.loadSession peer).current.isSome

def deleteSession (s : Stores) (peer : Address) : Stores :=
  { s with sessions := s.sessions.erase peer }

/-- Deletes the records of every device of a party; also counts them. -/
def deleteAllSessions (s : Stores) (name : String) : Nat × Stores :=
  let kept := s.sessions.filter fun peer _ => peer.name ≠ name
  (s.sessions.size - kept.size, { s with sessions := kept })

def identityCodec : Codec IdentityStore :=
  (KeyPair.codec.both <| Codec.uint32.both <| Codec.table Address.codec PublicKey.codec).view
    (fun (k, r, t) => ⟨k, r, t⟩) fun i => (i.keyPair, i.registrationId, i.known)

def preKeyCodec : Codec PreKeyRecord :=
  (Codec.uint32.both KeyPair.codec).view (fun p => ⟨p.1, p.2⟩) fun r => (r.id, r.keyPair)

def signedPreKeyCodec : Codec SignedPreKeyRecord :=
  (Codec.uint32.both <| Codec.uint64.both <| KeyPair.codec.both .bytes).view
    (fun (i, t, k, g) => ⟨i, t, k, g⟩) fun r => (r.id, r.timestamp, r.keyPair, r.signature)

def codec : Codec Stores :=
  (identityCodec.both <| (Codec.table .uint32 preKeyCodec).both <|
    (Codec.table .uint32 signedPreKeyCodec).both <| Codec.table Address.codec Record.codec).view
    (fun (i, p, g, s) => ⟨i, p, g, s⟩) fun s => (s.identity, s.preKeys, s.signedPreKeys, s.sessions)

end Stores

/-- A device: its stores and its supply of random bytes. -/
structure Device where
  stores : Stores
  entropy : Entropy

/-- An operation of a device. What it stored and drew before it failed stays. -/
abbrev Action (ε : Type) := ExceptT ε (StateM Device)

namespace Action

variable {α ε : Type}

def stores : Action ε Stores := return (← get).stores

def update (f : Stores → Stores) : Action ε Unit := modify fun d => { d with stores := f d.stores }

/-- An attempt on the device's random bytes. -/
def attempt (x : ExceptT ε Draw α) : Action ε α := fun d =>
  let (result, entropy) := x d.entropy
  (result, { d with entropy })

def draw (x : Draw α) : Action ε α := attempt (ExceptT.lift x)

def ofExcept (x : Except ε α) : Action ε α := ExceptT.mk (pure x)

/-- The same operation with its failures seen as another kind. -/
def adapt {δ : Type} (f : ε → δ) (x : Action ε α) : Action δ α := ExceptT.adapt f x

end Action

end DoubleRatchet
