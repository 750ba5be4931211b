import DoubleRatchet.Cipher.Cbc
import DoubleRatchet.Config
import DoubleRatchet.Entropy
import DoubleRatchet.Session.Record
import DoubleRatchet.Wire.Message

/-!
# Encrypting and decrypting messages

`State.encrypt` writes the next message of a state. `State.decrypt` reads a
message on one state, with a ratchet step when its ratchet key is new, and
`Record.decrypt` tries the states of a record in turn. All three work on
values: what becomes of the result is for the caller to decide.
-/
namespace DoubleRatchet

/-- A computation that draws random bytes and may fail; what is drawn stays drawn. -/
abbrev Attempt (ε : Type) := ExceptT ε Draw

variable [Suite]

namespace State

/-- The next message of a state, and the state after it. -/
def encrypt (s : State) (plain : Bytes) : Except SessionError (Message × State) :=
  let chain := s.sender.chain
  if chain.index.toNat = UInt32.size - 1 then
    .error (.session (.invalidState .senderChainExhausted))
  else
    let keys := chain.messageKeys
    let body := Cbc.encrypt (Suite.cipher keys.cipherKey) keys.iv plain
    let message := RatchetMessage.make s.version keys.macKey.toList s.senderRatchetKey chain.index
      s.previousCounter body s.localIdentity s.remoteIdentity
    let wrapped :=
      match s.pending with
      | some p =>
        .preKey (.make s.version s.localRegistrationId p.preKeyId p.signedPreKeyId p.baseKey
          s.localIdentity message)
      | none => .ratchet message
    .ok (wrapped, s.setSenderChain chain.next)

/-- The receiver chain of a ratchet key. A key that is new makes a ratchet
step: a receiver chain from our present key pair, then a sender chain from a
new one. -/
def receivingChain (c : Config) (s : State)
    (their : PublicKey) : Attempt SessionError (ChainKey × State) :=
  match s.receiverChain? their with
  | some chain => return (chain, s)
  | none => do
    let (root, chain) ← liftExcept (s.rootKey.createChain their s.sender.keyPair.privateKey)
    let fresh ← Draw.keyPair
    let (root, sending) ← liftExcept (root.createChain their fresh.privateKey)
    let (_, stepped) := { s with rootKey := root }.addReceiverChain their chain c.maxReceiverChains
    let previous := s.sender.chain.index.toNat - 1
    return (chain,
      { stepped with previousCounter := UInt32.ofNat previous, sender := ⟨fresh, sending⟩ })
where
  liftExcept {α : Type} (x : Except KeyFault α) : Attempt SessionError α :=
    ExceptT.mk (pure (x.mapError .ofKey))

/-- Caches the keys of a number of links of a chain. -/
def cacheLinks (c : Config) (now : UInt64) (their : PublicKey) :
    (count : Nat) → ChainKey → State → State
  | 0, _, s => s
  | count + 1, chain, s =>
    cacheLinks c now their count chain.next
      (s.cacheKeys their chain.messageKeys now c.maxSkippedKeys).2

/-- The keys of the message at a counter: cached ones if the chain is past it,
else those at the end of a jump that caches all keys on the way. -/
def keysAt (c : Config) (now : UInt64) (s : State) (their : PublicKey) (chain : ChainKey)
    (counter : UInt32) :
    Except SessionError (MessageKeys × State) :=
  if counter < chain.index then
    match s.takeKeys? their counter with
    | some taken => .ok taken
    | none => .error (.message (.duplicate chain.index counter))
  else
    let jump := counter - chain.index
    if c.maxForwardJump < jump ∨ counter.toNat = UInt32.size - 1 then
      .error (.message (.tooManySkipped counter jump c.maxForwardJump))
    else
      let cached := cacheLinks c now their jump.toNat chain s
      let link := chain.advance jump.toNat
      match cached.setReceiverChain their link.next with
      | .ok moved => .ok (link.messageKeys, moved)
      | .error fault => .error (.session fault)

/-- Without the cached keys that are past their age. -/
def expire (c : Config) (now : UInt64) (s : State) : State :=
  match c.skippedKeyMaxAge with
  | some age => (s.pruneSkipped (UInt64.ofNat (now.toNat - age.toNat))).2
  | none => s

/-- Reads a message on a state; the state after it has no pending pre-key. -/
def decrypt (c : Config) (now : UInt64) (s : State) (m : RatchetMessage) :
    Attempt SessionError (Bytes × State) := do
  if m.version ≠ s.version then throw (.session (.unsupportedVersion m.version))
  let (chain, s) ← (s.expire c now).receivingChain c m.ratchetKey
  let (keys, s) ← ExceptT.mk (pure (keysAt c now s m.ratchetKey chain m.counter))
  if !m.verify s.remoteIdentity s.localIdentity keys.macKey.toList then throw (.message .invalid)
  match Cbc.decrypt (Suite.cipher keys.cipherKey) keys.iv m.body with
  | some plain => return (plain, { s with pending := none })
  | none => throw (.message .invalid)

end State

namespace Record

/-- Whether another state may be tried after a failure. -/
def mayTryNext : SessionError → Bool
  | .message .invalid | .message (.tooManySkipped ..) => true
  | _ => false

/-- The fault reported in the end: the first refusal for too long a jump, else
that the message is invalid. -/
def lastFault : List SessionError → SessionError
  | [] => .message .invalid
  | .message (.tooManySkipped counter jump limit) :: _ =>
    .message (.tooManySkipped counter jump limit)
  | _ :: rest => lastFault rest

/-- Tries states in turn, and gives the position of the one that reads the
message, the plaintext and the state after it. `failed` holds the failures so
far, the first one first. -/
def tryStates (c : Config) (now : UInt64) (m : RatchetMessage) :
    (position : Nat) → List State → (failed : List SessionError) →
    Attempt SessionError (Nat × Bytes × State)
  | _, [], failed => throw (lastFault failed)
  | position, s :: rest, failed => do
    let outcome ← ExceptT.lift (s.decrypt c now m).run
    match outcome with
    | .ok (plain, after) => return (position, plain, after)
    | .error e =>
      if mayTryNext e then tryStates c now m (position + 1) rest (failed ++ [e]) else throw e

/-- Puts the state that read a message in its place: the current state is
replaced, an archived one becomes current. -/
def accept (c : Config) (r : Record) (position : Nat)
    (after : State) : Except SessionFault Record :=
  match r.current, position with
  | some _, 0 => .ok { r with current := some after }
  | some _, index + 1 => r.promoteArchived index after c.maxArchivedStates
  | none, index => r.promoteArchived index after c.maxArchivedStates

/-- Reads a message on the states of a record, the current one first. -/
def decrypt (c : Config) (now : UInt64) (peer : Address) (r : Record) (m : RatchetMessage) :
    Attempt SessionError (Bytes × Record) := do
  if r.isFresh then throw (.session (.noSession peer))
  let (position, plain, after) ← tryStates c now m 0 r.states []
  match r.accept c position after with
  | .ok r => return (plain, r)
  | .error fault => throw (.session fault)

end Record

end DoubleRatchet
