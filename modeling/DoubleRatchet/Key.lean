import DoubleRatchet.Bytes
import DoubleRatchet.KeyFault

/-!
# Keys

Public keys are Montgomery u-coordinates and private keys are scalars, both of
32 bytes. On the wire a public key has the type byte 5 in front of it. Private
keys are clamped when they are read or drawn.
-/
namespace DoubleRatchet

structure PublicKey where
  bytes : Octets 32
deriving DecidableEq, Inhabited

structure PrivateKey where
  bytes : Octets 32
deriving DecidableEq, Inhabited

/-- A public key together with its private half. -/
structure KeyPair where
  publicKey : PublicKey
  privateKey : PrivateKey
deriving DecidableEq, Inhabited

namespace PublicKey

/-- Reads the 32 bytes of a key. -/
def ofBytes (bs : Bytes) : Except KeyFault PublicKey :=
  match Octets.ofList? 32 bs with
  | some key => .ok ⟨key⟩
  | none => .error .publicKeyLength

/-- The byte in front of a key on the wire. -/
def typeByte : UInt8 := 5

def wire (key : PublicKey) : Octets 33 :=
  ⟨typeByte :: key.bytes.toList, by simp [key.bytes.length_eq]⟩

/-- Reads the wire form; a failure says what is wrong with it. -/
def ofWire (bs : Bytes) : Except String PublicKey :=
  match bs with
  | [] => .error "expected 33 bytes, got 0"
  | first :: rest =>
    match Octets.ofList? 32 rest with
    | none => .error s!"expected 33 bytes, got {bs.length}"
    | some key =>
      if first = typeByte then .ok ⟨key⟩ else .error s!"unknown key type 0x{hex [first]}"

@[simp] theorem ofWire_wire (key : PublicKey) : ofWire key.wire.toList = .ok key := by
  simp [ofWire, wire]

/-- Reads the wire form, without saying what is wrong with it. -/
def decode (bs : Bytes) : Except KeyFault PublicKey :=
  match ofWire bs with
  | .ok key => .ok key
  | .error _ => .error .wireForm

@[simp] theorem decode_wire (key : PublicKey) : decode key.wire.toList = .ok key := by
  simp [decode]

/-- The first four bytes in hexadecimal, a short name for display. -/
def fingerprint (key : PublicKey) : String := hex (key.bytes.toList.take 4)

end PublicKey

namespace PrivateKey

/-- The private key of 32 arbitrary bytes: the low three bits and the top bit
cleared, the second highest bit set. -/
def clamp (bytes : Octets 32) : PrivateKey :=
  ⟨(bytes.modify 0 (· &&& 248)).modify 31 fun b => b &&& 127 ||| 64⟩

/-- Reads the 32 bytes of a key and clamps them. -/
def ofBytes (bs : Bytes) : Except KeyFault PrivateKey :=
  match Octets.ofList? 32 bs with
  | some key => .ok (clamp key)
  | none => .error .privateKeyLength

end PrivateKey

/-- The public half in short form; the private half is never shown. -/
def KeyPair.describe (pair : KeyPair) : String :=
  "KeyPair \x7b public_key: PublicKey(" ++ pair.publicKey.fingerprint ++
    "), private_key: PrivateKey([redacted]) \x7d"

end DoubleRatchet
