import DoubleRatchet.Cipher.Block

/-!
# Counter mode

The encryptions of successive counter blocks make a key stream, and the data is
added to it. Doing so twice gives the data back.
-/
namespace DoubleRatchet.Ctr

/-- As many blocks of key stream as cover `length` bytes. -/
def keystream (c : BlockCipher) (counter : Nat → Block) (length : Nat) : Bytes :=
  (List.range ((length + 15) / 16)).flatMap fun i => (c.encrypt (counter i)).toList

theorem length_keystream (c : BlockCipher) (counter : Nat → Block) (length : Nat) :
    (keystream c counter length).length = 16 * ((length + 15) / 16) := by
  simp [keystream, List.length_flatMap, Octets.length_eq, List.map_const', Nat.mul_comm]

/-- Adds the key stream of the counters to the data. -/
def apply (c : BlockCipher) (counter : Nat → Block) (data : Bytes) : Bytes :=
  List.zipWith (· ^^^ ·) data (keystream c counter data.length)

@[simp] theorem length_apply (c : BlockCipher) (counter : Nat → Block) (data : Bytes) :
    (apply c counter data).length = data.length := by
  simp [apply, length_keystream]; omega

/-- Counting over the whole block from zero. -/
def fromZero (i : Nat) : Block := Octets.ofBig 16 i

end DoubleRatchet.Ctr
