import DoubleRatchet.Cipher.Ctr

/-!
# Galois/counter mode

Authenticated encryption with associated data under nonces of twelve bytes. The
tag is a polynomial in the field of 2 ^ 128 elements, evaluated at a secret
point and masked by the first block of the key stream.
-/
namespace DoubleRatchet.Gcm

/-- An element of the field of 2 ^ 128 elements; the highest bit is the constant term. -/
structure Element where
  high : UInt64
  low : UInt64
deriving DecidableEq

namespace Element

def zero : Element := ⟨0, 0⟩

@[inline] def add (x y : Element) : Element := ⟨x.high ^^^ y.high, x.low ^^^ y.low⟩

/-- The product with the indeterminate. -/
@[inline] def shift (x : Element) : Element :=
  let high := x.high >>> 1
  let low := (x.low >>> 1) ||| (x.high <<< 63)
  if x.low &&& 1 = 1 then ⟨high ^^^ 0xe100000000000000, low⟩ else ⟨high, low⟩

/-- Adds to `sum` the multiples of `y` by the `bits` highest bits of a word,
and gives `y` shifted as often. -/
def accumulate (word : UInt64) : (bits : Nat) → (y sum : Element) → Element × Element
  | 0, y, sum => (y, sum)
  | bits + 1, y, sum =>
    accumulate (word <<< 1) bits y.shift (if word >>> 63 = 1 then sum.add y else sum)

def mul (x y : Element) : Element :=
  let first := accumulate x.high 64 y zero
  (accumulate x.low 64 first.1 first.2).2

def ofBytes (bs : Bytes) : Element :=
  ⟨UInt64.ofNat (bigValue (bs.take 8)), UInt64.ofNat (bigValue (bs.drop 8))⟩

def toBlock (x : Element) : Block :=
  (Octets.ofBig 8 x.high.toNat).append (Octets.ofBig 8 x.low.toNat)

end Element

/-- Zeros up to the end of a block. -/
def fill (bs : Bytes) : Bytes := bs ++ List.replicate ((16 - bs.length % 16) % 16) 0

/-- The polynomial of the blocks of a byte string at the point `h`. -/
def polynomial (h : Element) (bs : Bytes) : Element :=
  (chunks 16 (bs.length / 16) bs).foldl (fun sum b => (sum.add (.ofBytes b)).mul h) .zero

/-- The first counter block of a nonce and those after it. -/
def counter (nonce : Octets 12) (i : Nat) : Block := nonce.append (Octets.ofBig 4 (i + 1))

def tag (c : BlockCipher) (nonce : Octets 12) (associated data : Bytes) : Block :=
  let h := Element.ofBytes (c.encrypt (.fill 16 0)).toList
  let lengths := bigBytes 8 (8 * associated.length) ++ bigBytes 8 (8 * data.length)
  let sum := polynomial h (fill associated ++ fill data ++ lengths)
  sum.toBlock.xor (c.encrypt (counter nonce 0))

/-- The ciphertext followed by the tag. -/
def encrypt (c : BlockCipher) (nonce : Octets 12) (associated plain : Bytes) : Bytes :=
  let data := Ctr.apply c (fun i => counter nonce (i + 1)) plain
  data ++ (tag c nonce associated data).toList

/-- The plaintext, if the tag at the end is the right one. -/
def decrypt (c : BlockCipher) (nonce : Octets 12) (associated input : Bytes) : Option Bytes :=
  if input.length < 16 then none
  else
    let data := input.take (input.length - 16)
    if input.drop (input.length - 16) = (tag c nonce associated data).toList then
      some (Ctr.apply c (fun i => counter nonce (i + 1)) data)
    else none

end DoubleRatchet.Gcm
