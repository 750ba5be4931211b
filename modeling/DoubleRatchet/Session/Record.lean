import DoubleRatchet.Session.State

/-!
# Session records

What is stored for one peer device: the current state and a bounded history of
earlier ones, under which late messages may still be encrypted.
-/
namespace DoubleRatchet

structure Record where
  current : Option State := none
  /-- Earlier states, the most recent first. -/
  previous : List State := []
deriving DecidableEq, Inhabited

namespace Record

def isFresh (r : Record) : Bool := r.current.isNone && r.previous.isEmpty

/-- All states, the current one first. -/
def states (r : Record) : List State := r.current.toList ++ r.previous

/-- Whether a state was built from this base key. -/
def hasState (r : Record) (version : UInt8) (baseKey : PublicKey) : Bool :=
  r.states.any fun s => s.version = version && s.baseKey = baseKey

/-- Moves the current state to the front of the history, within a bound. -/
def archiveCurrent (r : Record) (bound : Nat) : Record :=
  match r.current with
  | some s => ⟨none, (s :: r.previous).take bound⟩
  | none => r

/-- Makes a state current, archiving the one before it. -/
def promote (r : Record) (s : State) (bound : Nat) : Record :=
  { r.archiveCurrent bound with current := some s }

/-- Makes `s` current in place of the archived state at an index. -/
def promoteArchived (r : Record) (index : Nat) (s : State)
    (bound : Nat) : Except SessionFault Record :=
  if index < r.previous.length then
    .ok (promote { r with previous := r.previous.eraseIdx index } s bound)
  else .error (.invalidState .archivedIndexOutOfRange)

/-- The first byte of a stored record. -/
def format : UInt8 := 1

def codec : Codec Record :=
  (State.codec.option.both State.codec.list).view (fun p => ⟨p.1, p.2⟩) fun r =>
    (r.current, r.previous)

def serialize (r : Record) : Bytes := format :: codec.write r

def deserialize (bs : Bytes) : Except SessionFault Record :=
  match bs with
  | [] => .error (.store .empty)
  | first :: rest =>
    if first = format then
      match codec.decode? rest with
      | some r => .ok r
      | none => .error (.store .malformed)
    else .error (.store (.unknownFormat first))

end Record

end DoubleRatchet
