import DoubleRatchet.Wire.Fault
import DoubleRatchet.Wire.Varint

/-!
# Protobuf fields

A protobuf body is a list of numbered fields in any order. `Fields.write` and
`Fields.read?` go between the bytes and the list; messages are then read off
the list. Groups have no meaning here but are read so that they can be skipped:
they may nest to a limit and each must be closed by its own number.

Of a repeated scalar the last one counts, and a repeated embedded message is
the concatenation of its occurrences. Every occurrence must be well formed.
-/
namespace DoubleRatchet.Protobuf

/-- What a field holds. -/
inductive Payload
  | varint (v : Nat)
  | fixed64 (v : Nat)
  | bytes (bs : Bytes)
  | group
  | fixed32 (v : Nat)
deriving DecidableEq

structure Field where
  number : Nat
  payload : Payload
deriving DecidableEq

abbrev Fields := List Field

/-- The number of a field together with the type of what follows. -/
def writeKey (number wireType : Nat) : Bytes := Varint.write 32 (8 * number + wireType)

def Field.write (f : Field) : Bytes :=
  match f.payload with
  | .varint v => writeKey f.number 0 ++ Varint.write 64 v
  | .fixed64 v => writeKey f.number 1 ++ littleBytes 8 v
  | .bytes bs => writeKey f.number 2 ++ Varint.write 64 bs.length ++ bs
  | .group => writeKey f.number 3 ++ writeKey f.number 4
  | .fixed32 v => writeKey f.number 5 ++ littleBytes 4 v

def Fields.write (fs : Fields) : Bytes := fs.flatMap Field.write

/-- The number and type in front of a field. Zero numbers no field. -/
def readKey (bs : Bytes) : Option (Nat × Nat × Bytes) := do
  let (key, rest) ← Varint.read 64 bs
  if key < UInt32.size ∧ 8 ≤ key then some (key / 8, key % 8, rest) else none

/-- What follows a key of a type that is no bracket of a group. -/
def readPayload (wireType : Nat) (bs : Bytes) : Option (Payload × Bytes) :=
  match wireType with
  | 0 => do
    let (v, rest) ← Varint.read 64 bs
    some (.varint v, rest)
  | 1 => do
    let (raw, rest) ← splitAt? 8 bs
    some (.fixed64 (littleValue raw), rest)
  | 2 => do
    let (n, rest) ← Varint.read 64 bs
    let (raw, rest) ← splitAt? n rest
    some (.bytes raw, rest)
  | 5 => do
    let (raw, rest) ← splitAt? 4 bs
    some (.fixed32 (littleValue raw), rest)
  | _ => none

/-- Reads fields to the end. `outer` holds the numbers of the groups that are
open, the innermost first; only what is in no group is kept. Every field takes
up bytes, so a count of the bytes is enough fuel. -/
def scan (limit : Nat) : (fuel : Nat) → (outer : List Nat) → Bytes → Option Fields
  | _, [], [] => some []
  | 0, _, _ => none
  | fuel + 1, outer, bs => do
    let (number, wireType, rest) ← readKey bs
    if wireType = 4 then
      match outer with
      | innermost :: outer => if innermost = number then scan limit fuel outer rest else none
      | [] => none
    else if limit ≤ outer.length then none
    else if wireType = 3 then
      let more ← scan limit fuel (number :: outer) rest
      some (if outer = [] then ⟨number, .group⟩ :: more else more)
    else
      let (payload, rest) ← readPayload wireType rest
      let more ← scan limit fuel outer rest
      some (if outer = [] then ⟨number, payload⟩ :: more else more)

/-- How deep groups may nest in a body, and in a body embedded in it. -/
def depthLimit : Nat := 100

/-- The fields of a body. -/
def Fields.read? (bs : Bytes) : Option Fields := scan depthLimit bs.length [] bs

def Payload.uint32? : Payload → Option UInt32
  | .varint v => some (UInt32.ofNat v)
  | _ => none

def Payload.fixed64? : Payload → Option UInt64
  | .fixed64 v => some (UInt64.ofNat v)
  | _ => none

def Payload.bytes? : Payload → Option Bytes
  | .bytes bs => some bs
  | _ => none

def Payload.text? : Payload → Option String
  | .bytes bs => ofUtf8? bs
  | _ => none

def Payload.fields? : Payload → Option Fields
  | .bytes bs => scan (depthLimit - 1) bs.length [] bs
  | _ => none

/-- All occurrences of a field, read by `as?`. -/
def occurrences {α : Type} (as? : Payload → Option α) (fs : Fields) (number : Nat) :
    Except WireFault (List α) :=
  match (fs.filter (·.number = number)).mapM fun f => as? f.payload with
  | some values => .ok values
  | none => .error .malformedFields

/-- The last occurrence of a field. -/
def last {α : Type} (as? : Payload → Option α) (fs : Fields) (number : Nat) :
    Except WireFault (Option α) :=
  (occurrences as? fs number).map List.getLast?

def Fields.uint32 (fs : Fields) : (number : Nat) → Except WireFault (Option UInt32) :=
  last Payload.uint32? fs

def Fields.fixed64 (fs : Fields) : (number : Nat) → Except WireFault (Option UInt64) :=
  last Payload.fixed64? fs

def Fields.bytes (fs : Fields) : (number : Nat) → Except WireFault (Option Bytes) :=
  last Payload.bytes? fs

def Fields.text (fs : Fields) : (number : Nat) → Except WireFault (Option String) :=
  last Payload.text? fs

/-- The occurrences of an embedded message, joined. -/
def Fields.embedded (fs : Fields) (number : Nat) : Except WireFault (Option Fields) :=
  (occurrences Payload.fields? fs number).map fun
    | [] => none
    | parts => some parts.flatten

/-- The fields of a body, with the fault of a body that has none. -/
def fields (bs : Bytes) : Except WireFault Fields :=
  match Fields.read? bs with
  | some fs => .ok fs
  | none => .error .malformedFields

/-- A field that must be there. -/
def required {α : Type} (name : String) : Option α → Except WireFault α
  | some a => .ok a
  | none => .error (.missingField name)

end DoubleRatchet.Protobuf
