/-!
# Byte strings

A byte string is a list of bytes, so that it splits and joins by the list
lemmas. `Octets n` is a byte string with its length in the type: keys, tags,
salts and blocks are of this kind. Fixed-width numbers are written in either
byte order and read back by `littleValue` and `bigValue`; `splitAt?` cuts off a
part of known length.
-/
namespace DoubleRatchet

abbrev Bytes := List UInt8

/-- A byte string of length `n`. -/
@[ext] structure Octets (n : Nat) where
  toList : Bytes
  length_eq : toList.length = n
deriving DecidableEq

namespace Octets

instance {n : Nat} : Inhabited (Octets n) := ⟨⟨List.replicate n 0, by simp⟩⟩

/-- The byte string itself when its length is `n`. -/
def ofList? (n : Nat) (bs : Bytes) : Option (Octets n) :=
  if h : bs.length = n then some ⟨bs, h⟩ else none

@[simp] theorem ofList?_toList {n : Nat} (o : Octets n) : ofList? n o.toList = some o := by
  simp [ofList?, o.length_eq]

theorem ofList?_eq_some_iff {n : Nat} {bs : Bytes} {o : Octets n} :
    ofList? n bs = some o ↔ bs = o.toList := by
  constructor
  · intro h
    unfold ofList? at h
    split at h
    · cases h; rfl
    · cases h
  · rintro rfl; simp

/-- `n` copies of one byte. -/
def fill (n : Nat) (b : UInt8) : Octets n := ⟨List.replicate n b, by simp⟩

/-- The `len` bytes from position `start` on. -/
def slice {n : Nat} (o : Octets n) (start len : Nat) (h : start + len ≤ n) : Octets len :=
  ⟨(o.toList.drop start).take len, by simp [o.length_eq]; omega⟩

/-- The two halves of 64 bytes. -/
def halves (o : Octets 64) : Octets 32 × Octets 32 :=
  (o.slice 0 32 (by decide), o.slice 32 32 (by decide))

def get {n : Nat} (o : Octets n) (i : Fin n) : UInt8 := o.toList.get (i.cast o.length_eq.symm)

def append {m n : Nat} (a : Octets m) (b : Octets n) : Octets (m + n) :=
  ⟨a.toList ++ b.toList, by simp [a.length_eq, b.length_eq]⟩

@[simp] theorem toList_append {m n : Nat} (a : Octets m) (b : Octets n) :
    (a.append b).toList = a.toList ++ b.toList := rfl

def xor {n : Nat} (a b : Octets n) : Octets n :=
  ⟨List.zipWith (· ^^^ ·) a.toList b.toList, by simp [a.length_eq, b.length_eq]⟩

/-- The same bytes with the one at position `i` changed by `f`. -/
def modify {n : Nat} (o : Octets n) (i : Nat) (f : UInt8 → UInt8) : Octets n :=
  ⟨o.toList.modify i f, by simp [o.length_eq]⟩

end Octets

/-- The low `width` bytes of a number, the lowest first. -/
def littleBytes : (width : Nat) → Nat → Bytes
  | 0, _ => []
  | width + 1, v => UInt8.ofNat v :: littleBytes width (v / 256)

/-- The low `width` bytes of a number, the highest first. -/
def bigBytes (width v : Nat) : Bytes := (littleBytes width v).reverse

@[simp] theorem length_littleBytes (width v : Nat) : (littleBytes width v).length = width := by
  induction width generalizing v with
  | zero => rfl
  | succ width ih => simp [littleBytes, ih]

@[simp] theorem length_bigBytes (width v : Nat) : (bigBytes width v).length = width := by
  simp [bigBytes]

/-- The number whose bytes are given with the lowest first. -/
def littleValue (bs : Bytes) : Nat := bs.foldr (fun b v => b.toNat + 256 * v) 0

/-- The number whose bytes are given with the highest first. -/
def bigValue (bs : Bytes) : Nat := bs.foldl (fun v b => 256 * v + b.toNat) 0

theorem littleValue_littleBytes {width v : Nat} (h : v < 1 <<< (8 * width)) :
    littleValue (littleBytes width v) = v := by
  induction width generalizing v with
  | zero =>
    rw [Nat.mul_zero, Nat.shiftLeft_zero] at h
    exact (Nat.lt_one_iff.mp h).symm
  | succ width ih =>
    have hquotient : v / 256 < 1 <<< (8 * width) := by
      rw [Nat.div_lt_iff_lt_mul (by decide)]
      simpa [Nat.shiftLeft_eq, Nat.mul_add, Nat.pow_add] using h
    have htail :
        littleValue (littleBytes (width + 1) v) = (UInt8.ofNat v).toNat + 256 * (v / 256) := by
      rw [← ih hquotient]
      rfl
    rw [htail, UInt8.toNat_ofNat']
    omega

theorem littleValue_lt (bs : Bytes) : littleValue bs < 1 <<< (8 * bs.length) := by
  induction bs with
  | nil => decide
  | cons b bs ih =>
    have hb := b.toNat_lt
    have hvalue : littleValue (b :: bs) = b.toNat + 256 * littleValue bs := rfl
    rw [hvalue, List.length_cons, Nat.mul_succ]
    simp only [Nat.one_shiftLeft, Nat.pow_add] at ih ⊢
    omega

theorem littleBytes_littleValue (bs : Bytes) : littleBytes bs.length (littleValue bs) = bs := by
  induction bs with
  | nil => rfl
  | cons b bs ih =>
    have hb := b.toNat_lt
    have hbyte : UInt8.ofNat (b.toNat + 256 * littleValue bs) = b := by
      rw [← UInt8.toNat_inj, UInt8.toNat_ofNat']
      omega
    have hquotient : (b.toNat + 256 * littleValue bs) / 256 = littleValue bs := by omega
    show UInt8.ofNat (b.toNat + 256 * littleValue bs) ::
      littleBytes bs.length ((b.toNat + 256 * littleValue bs) / 256) = b :: bs
    rw [hbyte, hquotient, ih]

theorem bigValue_reverse (bs : Bytes) : bigValue bs.reverse = littleValue bs := by
  simp only [bigValue, littleValue, List.foldl_reverse, Nat.add_comm]

theorem bigValue_bigBytes {width v : Nat} (h : v < 1 <<< (8 * width)) :
    bigValue (bigBytes width v) = v := by
  rw [bigBytes, bigValue_reverse, littleValue_littleBytes h]

theorem bigBytes_bigValue (bs : Bytes) : bigBytes bs.length (bigValue bs) = bs := by
  have hlittle := littleBytes_littleValue bs.reverse
  rw [← bigValue_reverse, List.reverse_reverse, List.length_reverse] at hlittle
  rw [bigBytes, hlittle, List.reverse_reverse]

namespace Octets

/-- A number modulo `256 ^ n`, the lowest byte first. -/
def ofLittle (n v : Nat) : Octets n := ⟨littleBytes n v, by simp⟩

/-- A number modulo `256 ^ n`, the highest byte first. -/
def ofBig (n v : Nat) : Octets n := ⟨bigBytes n v, by simp⟩

end Octets

/-- The UTF-8 bytes of a text. -/
def utf8 (s : String) : Bytes := s.toUTF8.toList

/-- The text with these UTF-8 bytes, if they are well formed. -/
def ofUtf8? (bs : Bytes) : Option String := String.fromUTF8? (ByteArray.mk bs.toArray)

theorem toList_loop (bs : ByteArray) (i : Nat) (read : Bytes) :
    ByteArray.toList.loop bs i read = read.reverse ++ bs.data.toList.drop i := by
  fun_induction ByteArray.toList.loop bs i read with
  | case1 i read hi ih =>
    have hlength : i < bs.data.toList.length := hi
    have hnext : bs.get! i = bs.data.toList[i] := getElem!_pos bs.data i hi
    rw [ih, List.drop_eq_getElem_cons hlength, hnext, List.reverse_cons, List.append_assoc,
      List.singleton_append]
  | case2 i read hi =>
    have hlength : bs.data.toList.length ≤ i := Nat.not_lt.mp hi
    rw [List.drop_of_length_le hlength, List.append_nil]

theorem toList_byteArray (bs : ByteArray) : bs.toList = bs.data.toList :=
  toList_loop bs 0 []

@[simp] theorem ofUtf8?_utf8 (s : String) : ofUtf8? (utf8 s) = some s := by
  have hbytes : (utf8 s).toArray = s.toUTF8.data := by rw [utf8, toList_byteArray]
  rw [ofUtf8?, hbytes]
  exact dif_pos s.isValidUTF8

/-- A hexadecimal digit in lower case. -/
def hexDigit (n : Nat) : Char := Char.ofNat (if n < 10 then 48 + n else 87 + n)

/-- Two lower-case hexadecimal digits for each byte. -/
def hex (bs : Bytes) : String :=
  String.ofList (bs.flatMap fun b => [hexDigit (b.toNat / 16), hexDigit (b.toNat % 16)])

/-- The value of a hexadecimal digit of either case. -/
def hexValue? (c : Char) : Option Nat :=
  if c.isDigit then some (c.toNat - 48)
  else if 'a' ≤ c ∧ c ≤ 'f' then some (c.toNat - 87)
  else if 'A' ≤ c ∧ c ≤ 'F' then some (c.toNat - 55)
  else none

/-- The bytes that pairs of hexadecimal digits write. -/
def ofHex? : List Char → Option Bytes
  | [] => some []
  | a :: b :: rest => do
    return UInt8.ofNat (16 * (← hexValue? a) + (← hexValue? b)) :: (← ofHex? rest)
  | [_] => none

/-- The first `n` bytes and those after them, if there are as many. What comes
after the first `n` is not counted, so a long rest costs nothing. -/
def splitAt? (n : Nat) (bs : Bytes) : Option (Bytes × Bytes) :=
  let front := bs.take n
  if front.length = n then some (front, bs.drop n) else none

theorem splitAt?_eq_some_iff {n : Nat} {bs front rest : Bytes} :
    splitAt? n bs = some (front, rest) ↔ bs = front ++ rest ∧ front.length = n := by
  simp only [splitAt?]
  constructor
  · intro h
    split at h
    · rename_i hl
      obtain ⟨rfl, rfl⟩ := Prod.mk.inj (Option.some.inj h)
      exact ⟨(List.take_append_drop n bs).symm, hl⟩
    · cases h
  · rintro ⟨rfl, rfl⟩; simp

/-- The bytes in consecutive pieces of `n`, `count` of them. -/
def chunks (n : Nat) : (count : Nat) → Bytes → List Bytes
  | 0, _ => []
  | count + 1, bs => bs.take n :: chunks n count (bs.drop n)

end DoubleRatchet
