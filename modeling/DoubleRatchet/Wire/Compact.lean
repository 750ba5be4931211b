import DoubleRatchet.Wire.Varint

/-!
# Compact records

A format without field names or types: numbers of more than a byte are of
variable length, lists and texts are preceded by their length, an option by 0
or 1, and records are their fields one after the other. A `Codec` is a writer
with its reader; codecs of records are put together from those of their parts,
so the two sides cannot drift apart.
-/
namespace DoubleRatchet

/-- A writer of values and a reader that also gives what follows the value. -/
structure Codec (α : Type) where
  write : α → Bytes
  read : Bytes → Option (α × Bytes)

namespace Codec

variable {α β : Type}

def byte : Codec UInt8 where
  write b := [b]
  read
    | b :: rest => some (b, rest)
    | [] => none

/-- Numbers below `2 ^ bits`. -/
def number (bits : Nat) : Codec Nat := ⟨Varint.write bits, Varint.read bits⟩

/-- The same codec seen through a pair of inverse maps. -/
def view (c : Codec α) (ofPart : α → β) (toPart : β → α) : Codec β where
  write b := c.write (toPart b)
  read bs := (c.read bs).map fun (a, rest) => (ofPart a, rest)

def uint32 : Codec UInt32 := (number 32).view UInt32.ofNat UInt32.toNat

def uint64 : Codec UInt64 := (number 64).view UInt64.ofNat UInt64.toNat

/-- Byte strings of a length known beforehand. -/
def octets (n : Nat) : Codec (Octets n) where
  write o := o.toList
  read bs := (Octets.ofList? n (bs.take n)).map fun o => (o, bs.drop n)

/-- Byte strings behind their length. -/
def bytes : Codec Bytes where
  write bs := Varint.write 64 bs.length ++ bs
  read bs := do
    let (n, rest) ← Varint.read 64 bs
    splitAt? n rest

/-- Texts as their UTF-8 bytes behind the number of these. -/
def text : Codec String where
  write s := bytes.write (utf8 s)
  read bs := do
    let (raw, rest) ← bytes.read bs
    let s ← ofUtf8? raw
    some (s, rest)

def option (c : Codec α) : Codec (Option α) where
  write
    | none => [0]
    | some a => 1 :: c.write a
  read
    | 0 :: rest => some (none, rest)
    | 1 :: rest => (c.read rest).map fun (a, rest) => (some a, rest)
    | _ => none

def readMany (c : Codec α) : (count : Nat) → Bytes → Option (List α × Bytes)
  | 0, bs => some ([], bs)
  | count + 1, bs => do
    let (a, rest) ← c.read bs
    let (as, rest) ← readMany c count rest
    some (a :: as, rest)

/-- Lists behind their length. -/
def list (c : Codec α) : Codec (List α) where
  write as := Varint.write 64 as.length ++ as.flatMap c.write
  read bs := do
    let (n, rest) ← Varint.read 64 bs
    c.readMany n rest

/-- Two values one after the other. -/
def both (c : Codec α) (d : Codec β) : Codec (α × β) where
  write p := c.write p.1 ++ d.write p.2
  read bs := do
    let (a, rest) ← c.read bs
    let (b, rest) ← d.read rest
    some ((a, b), rest)

/-- Reads a value and leaves out what follows it. -/
def decode? (c : Codec α) (bs : Bytes) : Option α := (c.read bs).map Prod.fst

end Codec

end DoubleRatchet
