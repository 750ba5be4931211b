import DoubleRatchet.Cipher.Block

/-!
# AES-256

The state is four columns of four bytes. The byte substitution is computed from
inversion in the field of 256 elements and tabulated once. Decryption undoes
the steps in reverse order, except that mixing of columns is undone by three
more mixings, since its fourth power is the identity.
-/
namespace DoubleRatchet.Aes

/-- Multiplication by the generator of the field of 256 elements. -/
@[inline] def double (x : UInt8) : UInt8 := if x < 128 then x <<< 1 else (x <<< 1) ^^^ 0x1b

/-- The product in the field, from the low bits of the second factor. -/
def product (x y : UInt8) : (bits : Nat) → UInt8
  | 0 => 0
  | bits + 1 => (if y &&& 1 = 1 then x else 0) ^^^ product (double x) (y >>> 1) bits

/-- The power of an element, from the low bits of the exponent. -/
def power (x : UInt8) (exponent : Nat) : (bits : Nat) → UInt8
  | 0 => 1
  | bits + 1 =>
    let rest := power (product x x 8) (exponent / 2) bits
    if exponent % 2 = 1 then product x rest 8 else rest

def rotateLeft (x : UInt8) (n : UInt8) : UInt8 := (x <<< n) ||| (x >>> (8 - n))

/-- Inversion in the field, zero staying zero, and an affine map. -/
def substitute (x : UInt8) : UInt8 :=
  let y := power x 254 8
  y ^^^ rotateLeft y 1 ^^^ rotateLeft y 2 ^^^ rotateLeft y 3 ^^^ rotateLeft y 4 ^^^ 0x63

/-- The inverse of the affine map, then inversion. -/
def unsubstitute (x : UInt8) : UInt8 :=
  power (rotateLeft x 1 ^^^ rotateLeft x 3 ^^^ rotateLeft x 6 ^^^ 0x05) 254 8

def tabulate (f : UInt8 → UInt8) : Array UInt8 := (Array.range 256).map fun n => f (UInt8.ofNat n)

def forwardTable : Array UInt8 := tabulate substitute

def backwardTable : Array UInt8 := tabulate unsubstitute

theorem size_forwardTable : forwardTable.size = 256 := by simp [forwardTable, tabulate]

theorem size_backwardTable : backwardTable.size = 256 := by simp [backwardTable, tabulate]

/-- A tabulated function at one byte. -/
@[inline] def look (table : Array UInt8) (h : table.size = 256) (x : UInt8) : UInt8 :=
  have : x.toNat < table.size := by rw [h]; exact x.toNat_lt
  table[x.toNat]

def sub (x : UInt8) : UInt8 := look forwardTable size_forwardTable x

def unsub (x : UInt8) : UInt8 := look backwardTable size_backwardTable x

structure Column where
  b0 : UInt8
  b1 : UInt8
  b2 : UInt8
  b3 : UInt8
deriving DecidableEq

namespace Column

def map (f : UInt8 → UInt8) (c : Column) : Column := ⟨f c.b0, f c.b1, f c.b2, f c.b3⟩

def xor (c d : Column) : Column := ⟨c.b0 ^^^ d.b0, c.b1 ^^^ d.b1, c.b2 ^^^ d.b2, c.b3 ^^^ d.b3⟩

def rotate (c : Column) : Column := ⟨c.b1, c.b2, c.b3, c.b0⟩

def bytes (c : Column) : Bytes := [c.b0, c.b1, c.b2, c.b3]

/-- The product with the circulant matrix of 2, 3, 1, 1. -/
def mix (c : Column) : Column :=
  let d := c.map double
  ⟨d.b0 ^^^ d.b1 ^^^ c.b1 ^^^ c.b2 ^^^ c.b3, c.b0 ^^^ d.b1 ^^^ d.b2 ^^^ c.b2 ^^^ c.b3,
    c.b0 ^^^ c.b1 ^^^ d.b2 ^^^ d.b3 ^^^ c.b3, d.b0 ^^^ c.b0 ^^^ c.b1 ^^^ c.b2 ^^^ d.b3⟩

def unmix (c : Column) : Column := c.mix.mix.mix

end Column

/-- Four columns: a block, or half of a key. -/
structure State where
  c0 : Column
  c1 : Column
  c2 : Column
  c3 : Column
deriving DecidableEq

namespace State

def map (f : Column → Column) (s : State) : State := ⟨f s.c0, f s.c1, f s.c2, f s.c3⟩

def xor (s t : State) : State := ⟨s.c0.xor t.c0, s.c1.xor t.c1, s.c2.xor t.c2, s.c3.xor t.c3⟩

def bytes (s : State) : Bytes := s.c0.bytes ++ s.c1.bytes ++ s.c2.bytes ++ s.c3.bytes

def toBlock (s : State) : Block := ⟨s.bytes, rfl⟩

def ofBlock (b : Block) : State :=
  ⟨⟨b.get 0, b.get 1, b.get 2, b.get 3⟩, ⟨b.get 4, b.get 5, b.get 6, b.get 7⟩,
    ⟨b.get 8, b.get 9, b.get 10, b.get 11⟩, ⟨b.get 12, b.get 13, b.get 14, b.get 15⟩⟩

def subBytes (s : State) : State := s.map (·.map sub)

def unsubBytes (s : State) : State := s.map (·.map unsub)

/-- Row `r` moves left by `r` columns. -/
def shiftRows (s : State) : State :=
  ⟨⟨s.c0.b0, s.c1.b1, s.c2.b2, s.c3.b3⟩, ⟨s.c1.b0, s.c2.b1, s.c3.b2, s.c0.b3⟩,
    ⟨s.c2.b0, s.c3.b1, s.c0.b2, s.c1.b3⟩, ⟨s.c3.b0, s.c0.b1, s.c1.b2, s.c2.b3⟩⟩

/-- Row `r` moves right by `r` columns. -/
def unshiftRows (s : State) : State :=
  ⟨⟨s.c0.b0, s.c3.b1, s.c2.b2, s.c1.b3⟩, ⟨s.c1.b0, s.c0.b1, s.c3.b2, s.c2.b3⟩,
    ⟨s.c2.b0, s.c1.b1, s.c0.b2, s.c3.b3⟩, ⟨s.c3.b0, s.c2.b1, s.c1.b2, s.c0.b3⟩⟩

@[simp] theorem unshiftRows_shiftRows (s : State) : s.shiftRows.unshiftRows = s := rfl

def mixColumns (s : State) : State := s.map Column.mix

def unmixColumns (s : State) : State := s.map Column.unmix

end State

/-- The round keys after the first two, two for each round constant. -/
def furtherKeys : (constants : List UInt8) → (left right : State) → List State
  | [], _, _ => []
  | r :: rs, left, right =>
    let l0 := left.c0.xor ((right.c3.rotate.map sub).xor ⟨r, 0, 0, 0⟩)
    let l1 := left.c1.xor l0
    let l2 := left.c2.xor l1
    let l3 := left.c3.xor l2
    let r0 := right.c0.xor (l3.map sub)
    let r1 := right.c1.xor r0
    let r2 := right.c2.xor r1
    let r3 := right.c3.xor r2
    ⟨l0, l1, l2, l3⟩ :: ⟨r0, r1, r2, r3⟩ :: furtherKeys rs ⟨l0, l1, l2, l3⟩ ⟨r0, r1, r2, r3⟩

/-- The fifteen round keys, the first apart. -/
def roundKeys (key : Octets 32) : State × List State :=
  let left := State.ofBlock (key.slice 0 16 (by decide))
  let right := State.ofBlock (key.slice 16 16 (by decide))
  (left, right :: (furtherKeys [1, 2, 4, 8, 16, 32, 64] left right).take 13)

/-- The rounds of the given keys; the last one does not mix columns. -/
def encryptRounds : List State → State → State
  | [], s => s
  | [k], s => s.subBytes.shiftRows.xor k
  | k :: ks, s => encryptRounds ks (s.subBytes.shiftRows.mixColumns.xor k)

/-- Undoes the rounds of the given keys, the last one first. -/
def decryptRounds : List State → State → State
  | [], s => s
  | [k], s => (s.xor k).unshiftRows.unsubBytes
  | k :: ks, s => ((decryptRounds ks s).xor k).unmixColumns.unshiftRows.unsubBytes

/-- AES under a key of 256 bits. -/
def cipher (key : Octets 32) : BlockCipher :=
  let keys := roundKeys key
  { encrypt := fun b => (encryptRounds keys.2 ((State.ofBlock b).xor keys.1)).toBlock
    decrypt := fun b => ((decryptRounds keys.2 (State.ofBlock b)).xor keys.1).toBlock }

end DoubleRatchet.Aes
