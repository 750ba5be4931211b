import DoubleRatchet.Proofs.Engine.Runs
import DoubleRatchet.Proofs.Session.Losses
import Mathlib.Logic.Function.Basic

/-!
# Two parties and a network

A conversation is two devices that write to each other over a network which may
delay, reorder, drop and repeat messages, but does not alter them: what is
delivered is any message that the other party has written so far. Beside each
device it is kept which messages were accepted, which receiver chains were ever
held, and whose cached keys were lost.
-/
namespace DoubleRatchet

/-- The two parties of a conversation. -/
inductive Side
  | initiator
  | responder
deriving DecidableEq

def Side.other : Side → Side
  | initiator => responder
  | responder => initiator

@[simp] theorem Side.other_other (side : Side) : side.other.other = side := by
  cases side <;> rfl

@[simp] theorem Side.other_ne (side : Side) : side.other ≠ side := by
  cases side <;> decide

theorem Side.eq_or_other (side that : Side) : that = side ∨ that = side.other := by
  cases side <;> cases that <;> decide

/-- One party: its device, its name for the other party and its bounds. -/
structure Seat where
  device : Device
  peer : Address
  bounds : Config
  /-- What it has written, with the plaintexts. -/
  sent : List (Message × Bytes) := []
  /-- The positions of the other party's messages that it has accepted. -/
  accepted : List Nat := []
  /-- The ratchet keys of all receiver chains that it has ever held. -/
  held : List PublicKey := []
  /-- The messages whose cached keys have expired or were evicted. -/
  lost : List (PublicKey × UInt32) := []
  /-- The ratchet keys of all its sender chains. -/
  ratchetKeys : List PublicKey := []

namespace Seat

/-- What it has stored for the other party. -/
def record (s : Seat) : Record := s.device.stores.loadSession s.peer

def chain? (s : Seat) (r : PublicKey) : Option ChainKey :=
  s.record.current.bind (·.receiverChain? r)

/-- How far the chain of a ratchet key has come; a chain that is not there starts at zero. -/
def index (s : Seat) (r : PublicKey) : Nat := (s.chain? r).elim 0 (·.index.toNat)

/-- The messages whose cached keys are past their age. -/
def expiring (s : Seat) (now : UInt64) : List (PublicKey × UInt32) :=
  s.record.current.elim [] fun state => (state.expiring s.bounds now).map SkippedKey.name

/-- Other pre-keys, however they came. -/
def restock (s : Seat) (preKeys : Table UInt32 PreKeyRecord)
    (signedPreKeys : Table UInt32 SignedPreKeyRecord) : Seat :=
  { s with device := { s.device with stores := { s.device.stores with preKeys, signedPreKeys } } }

variable [Suite]

/-- Writes a message, if the engine does. -/
def write (s : Seat) (plain : Bytes) : Seat :=
  match outcome (Engine.encrypt s.peer plain) s.device with
  | (.ok m, d) => { s with device := d, sent := s.sent ++ [(m, plain)] }
  | (.error _, d) => { s with device := d }

/-- Takes note of a reading. -/
def accept (s : Seat) (now : UInt64) (position : Nat) (m : RatchetMessage)
    (x : Engine.Reading) : Seat :=
  { s with
    accepted := s.accepted ++ [position]
    held := s.held ++ [m.ratchetKey]
    lost := s.lost ++ x.before.losses s.bounds now m s.device.entropy
    ratchetKeys := if x.before.hasReceiverChain m.ratchetKey then s.ratchetKeys
      else s.ratchetKeys ++ [x.after.senderRatchetKey] }

/-- What the engine makes of a message that comes in. -/
def decrypt (s : Seat) (now : UInt64) (m : Message) : Except SessionError Bytes × Device :=
  outcome (Engine.decrypt s.bounds now s.peer m) s.device

/-- A message comes in. -/
def receive (s : Seat) (now : UInt64) (position : Nat) (m : Message) : Seat :=
  match (s.decrypt now m).1, Engine.reading? s.bounds now s.peer m s.device with
  | .ok _, some x => { s.accept now position m.inner x with device := (s.decrypt now m).2 }
  | _, _ => { s with device := (s.decrypt now m).2 }

omit [Suite] in
@[simp] theorem ratchetKeys_restock (s : Seat) (preKeys : Table UInt32 PreKeyRecord)
    (signedPreKeys : Table UInt32 SignedPreKeyRecord) :
    (s.restock preKeys signedPreKeys).ratchetKeys = s.ratchetKeys := rfl

@[simp] theorem ratchetKeys_write (s : Seat) (plain : Bytes) :
    (s.write plain).ratchetKeys = s.ratchetKeys := by
  unfold write
  split <;> rfl

/-- The ratchet keys that were made stay on the list. -/
theorem ratchetKeys_receive (s : Seat) (now : UInt64) (position : Nat) (m : Message) :
    s.ratchetKeys <+: (s.receive now position m).ratchetKeys := by
  unfold receive
  split
  · next x _ _ =>
    by_cases hold : x.before.hasReceiverChain m.inner.ratchetKey = true
    · simp [accept, hold]
    · simp [accept, hold]
  · exact List.prefix_rfl

end Seat

/-- The pre-keys that a message names are the ones that were offered. -/
def Stores.KeepsFor (s offered : Stores) : Message → Prop
  | .ratchet _ => True
  | .preKey p =>
    s.signedPreKeys.get? p.signedPreKeyId = offered.signedPreKeys.get? p.signedPreKeyId ∧
      p.preKeyId.bind s.preKeys.get? = p.preKeyId.bind offered.preKeys.get?

instance (s offered : Stores) (m : Message) : Decidable (s.KeepsFor offered m) := by
  cases m <;> unfold Stores.KeepsFor <;> infer_instance

/-- Two parties, and what the responder had stored when it published its bundle. -/
structure Conversation where
  seat : Side → Seat
  offered : Stores
  /-- Whether a message was accepted that the receiver had no means to tell the keys of. -/
  mistaken : Bool := false

/-- What may happen in a conversation. -/
inductive Event
  | write (side : Side) (plain : Bytes)
  /-- A message of the other party arrives, at a time in unix seconds. -/
  | deliver (side : Side) (now : UInt64) (position : Nat)
  | restock (side : Side) (preKeys : Table UInt32 PreKeyRecord)
      (signedPreKeys : Table UInt32 SignedPreKeyRecord)

namespace Conversation

/-- The receiver has the means to tell the right keys of a message: it holds the
chain or never held it, and for its first message the pre-keys are still stored. -/
structure Fair (w : Conversation) (side : Side) (m : Message) : Prop where
  chain : m.inner.ratchetKey ∉ (w.seat side).held ∨
      ((w.seat side).chain? m.inner.ratchetKey).isSome = true
  stocked : (w.seat side).record.current.isSome = true ∨
      (w.seat side).device.stores.KeepsFor w.offered m

instance (w : Conversation) (side : Side) (m : Message) : Decidable (w.Fair side m) :=
  decidable_of_iff (_ ∧ _) ⟨fun h => ⟨h.1, h.2⟩, fun h => ⟨h.1, h.2⟩⟩

/-- A message can be read: the receiver has the means to tell its keys, it is not
too far ahead of its chain and, if it is behind, its cached key is not lost. -/
structure Deliverable (w : Conversation) (side : Side) (now : UInt64)
    (m : Message) : Prop extends Fair w side m where
  near : m.inner.counter.toNat ≤
    (w.seat side).index m.inner.ratchetKey + (w.seat side).bounds.maxForwardJump.toNat
  kept : m.inner.counter.toNat < (w.seat side).index m.inner.ratchetKey →
    m.inner.name ∉ (w.seat side).lost ∧ m.inner.name ∉ (w.seat side).expiring now

instance (w : Conversation) (side : Side) (now : UInt64)
    (m : Message) : Decidable (w.Deliverable side now m) :=
  decidable_of_iff (w.Fair side m ∧ _ ∧ _)
    ⟨fun h => ⟨h.1, h.2.1, h.2.2⟩, fun h => ⟨h.toFair, h.near, h.kept⟩⟩

def set (w : Conversation) (side : Side) (s : Seat) : Conversation :=
  { w with seat := Function.update w.seat side s }

@[simp] theorem set_seat (w : Conversation) (side : Side) (s : Seat) :
    (w.set side s).seat side = s :=
  Function.update_self ..

@[simp] theorem set_seat_other (w : Conversation) (side : Side) (s : Seat) :
    (w.set side s).seat side.other = w.seat side.other :=
  Function.update_of_ne side.other_ne ..

variable [Suite]

def step (w : Conversation) : Event → Conversation
  | .write side plain => w.set side ((w.seat side).write plain)
  | .restock side preKeys signedPreKeys => w.set side ((w.seat side).restock preKeys signedPreKeys)
  | .deliver side now position =>
    match (w.seat side.other).sent[position]? with
    | none => w
    | some (m, _) => { w.set side ((w.seat side).receive now position m) with
        mistaken := w.mistaken || ((w.seat side).decrypt now m).1.isOk && !decide (w.Fair side m) }

/-- The conversation after a number of events. -/
def run (w : Conversation) (events : List Event) : Conversation := events.foldl step w

@[simp] theorem run_cons (w : Conversation) (event : Event) (events : List Event) :
    w.run (event :: events) = (w.step event).run events := rfl

omit [Suite] in
/-- No tag was right by accident, and no party made a ratchet key twice. Both
may happen, with a probability that depends on the primitives alone. -/
structure Regular (w : Conversation) : Prop where
  sincere : w.mistaken = false
  fresh : ∀ side, (w.seat side).ratchetKeys.Nodup

omit [Suite] in
instance (w : Conversation) : Decidable w.Regular :=
  decidable_of_iff (w.mistaken = false ∧ (w.seat .initiator).ratchetKeys.Nodup ∧
    (w.seat .responder).ratchetKeys.Nodup)
    ⟨fun h => ⟨h.1, fun side => by cases side; exacts [h.2.1, h.2.2]⟩,
      fun h => ⟨h.sincere, h.fresh .initiator, h.fresh .responder⟩⟩

end Conversation

end DoubleRatchet
