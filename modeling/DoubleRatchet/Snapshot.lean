import DoubleRatchet.Cipher.Aes
import DoubleRatchet.Cipher.Gcm
import DoubleRatchet.Hash.Pbkdf2
import DoubleRatchet.Stores

/-!
# Sealed snapshots of the stores

All stores in one byte string under a key derived from a password: a header
with the number of iterations, salt, nonce and length, and then the stores,
encrypted and authenticated together with the start of the header.
-/
namespace DoubleRatchet

/-- Why bytes are not opened as a snapshot, or a snapshot is not made. -/
inductive SnapshotFault
  | tooShort
  | badHeader
  | truncated
  | noIterations
  | wrongPassword
  | malformed
  | tooLarge
deriving DecidableEq

def SnapshotFault.message : SnapshotFault → String
  | tooShort => "file too short"
  | badHeader => "invalid file format (expected AXSS header)"
  | truncated => "file truncated"
  | noIterations => "zero PBKDF2 iteration count"
  | wrongPassword => "incorrect password or corrupted file"
  | malformed => "deserialization failed"
  | tooLarge => "store snapshot too large"

namespace Snapshot

/-- The first five bytes: four letters and the version of the layout. -/
def magic : Bytes := utf8 "AXSS" ++ [1]

/-- What stands in front of the encrypted stores: magic, iterations, salt, nonce and length. -/
def headerLength : Nat := 5 + 4 + 32 + 12 + 4

/-- The iterations used when a store file is saved. -/
def defaultIterations : UInt32 := 600000

/-- The part of the header that is authenticated. -/
def associated (iterations : UInt32) : Bytes := magic ++ bigBytes 4 iterations.toNat

def deriveKey (password : String) (salt : Bytes)
    (iterations : UInt32) : Except SnapshotFault (Octets 32) :=
  if iterations = 0 then .error .noIterations
  else .ok (pbkdf2 (utf8 password) salt iterations.toNat)

/-- Seals stores under a password, with a given salt and nonce. -/
def sealWith (salt : Octets 32) (nonce : Octets 12) (s : Stores) (password : String)
    (iterations : UInt32) :
    Except SnapshotFault Bytes := do
  let key ← deriveKey password salt.toList iterations
  let data := Gcm.encrypt (Aes.cipher key) nonce (associated iterations) (Stores.codec.write s)
  if UInt32.size ≤ data.length then throw .tooLarge
  return associated iterations ++ salt.toList ++ nonce.toList ++ bigBytes 4 data.length ++ data

/-- Seals stores under a password. -/
def make (s : Stores) (password : String)
    (iterations : UInt32) : ExceptT SnapshotFault Draw Bytes := do
  let salt ← Draw.octets 32
  let nonce ← Draw.octets 12
  ExceptT.mk (pure (sealWith salt nonce s password iterations))

/-- Whether bytes start with a header of this layout. -/
def hasHeader (bs : Bytes) : Bool := headerLength ≤ bs.length && bs.take 5 = magic

/-- Opens a snapshot; bytes after it are left out. -/
def open? (bs : Bytes) (password : String) : Except SnapshotFault Stores := do
  if bs.length < headerLength then throw .tooShort
  if !hasHeader bs then throw .badHeader
  let iterations := UInt32.ofNat (bigValue ((bs.drop 5).take 4))
  let salt := (bs.drop 9).take 32
  let length := bigValue ((bs.drop 53).take 4)
  if bs.length < headerLength + length then throw .truncated
  let key ← deriveKey password salt iterations
  match Octets.ofList? 12 ((bs.drop 41).take 12) with
  | none => throw .tooShort
  | some nonce =>
    let data := (bs.drop headerLength).take length
    match Gcm.decrypt (Aes.cipher key) nonce (associated iterations) data with
    | none => throw .wrongPassword
    | some plain =>
      match Stores.codec.decode? plain with
      | some s => return s
      | none => throw .malformed

end Snapshot

end DoubleRatchet
