import DoubleRatchet.Cipher.Cbc

/-!
# Cipher block chaining decrypts what it encrypts

Under a block cipher whose two maps are inverse, in three steps: cutting into
blocks loses nothing, each block is unmixed again, and the padding comes off.
-/
namespace DoubleRatchet

@[simp] theorem Octets.xor_xor_cancel {n : Nat} (a b : Octets n) : (a.xor b).xor b = a := by
  refine Octets.ext (List.ext_getElem ?_ fun i h₁ h₂ => ?_)
  · simp [Octets.xor, a.length_eq, b.length_eq]
  · simp only [Octets.xor, List.getElem_zipWith, UInt8.xor_assoc, UInt8.xor_self, UInt8.xor_zero]

theorem Octets.xor_comm {n : Nat} (a b : Octets n) : a.xor b = b.xor a := by
  refine Octets.ext (List.ext_getElem ?_ fun i h₁ h₂ => ?_)
  · simp [Octets.xor, a.length_eq, b.length_eq]
  · simp only [Octets.xor, List.getElem_zipWith]
    exact UInt8.xor_comm _ _

namespace Cbc

@[simp] theorem toBlocks_nil : toBlocks [] = [] := rfl

theorem toBlocks_append (b : Block) (rest : Bytes) :
    toBlocks (b.toList ++ rest) = b :: toBlocks rest := by
  have hb := b.length_eq
  have hcount : (b.toList ++ rest).length / 16 = rest.length / 16 + 1 := by
    rw [List.length_append, hb]
    omega
  have htake : (b.toList ++ rest).take 16 = b.toList := List.take_left' hb
  have hdrop : (b.toList ++ rest).drop 16 = rest := List.drop_left' hb
  rw [toBlocks, hcount, chunks, htake, hdrop, List.filterMap_cons, Octets.ofList?_toList]
  rfl

@[simp] theorem toBlocks_ofBlocks (blocks : List Block) : toBlocks (ofBlocks blocks) = blocks := by
  induction blocks with
  | nil => rfl
  | cons b blocks ih => rw [ofBlocks, List.flatMap_cons, ← ofBlocks, toBlocks_append, ih]

/-- A byte string of whole blocks is what its blocks make up. -/
theorem ofBlocks_toBlocks {n : Nat} {bs : Bytes} (h : bs.length = 16 * n) :
    ofBlocks (toBlocks bs) = bs := by
  induction n generalizing bs with
  | zero =>
    obtain rfl := List.eq_nil_of_length_eq_zero h
    rfl
  | succ n ih =>
    have hfront : (bs.take 16).length = 16 := by rw [List.length_take]; omega
    have hrest : (bs.drop 16).length = 16 * n := by rw [List.length_drop]; omega
    have hsplit := toBlocks_append ⟨bs.take 16, hfront⟩ (bs.drop 16)
    rw [List.take_append_drop] at hsplit
    rw [hsplit, ofBlocks, List.flatMap_cons, ← ofBlocks, ih hrest]
    exact List.take_append_drop 16 bs

@[simp] theorem length_ofBlocks (blocks : List Block) :
    (ofBlocks blocks).length = 16 * blocks.length := by
  induction blocks with
  | nil => rfl
  | cons b blocks ih =>
    rw [ofBlocks, List.flatMap_cons, List.length_append, b.length_eq, ← ofBlocks,
      ih, List.length_cons]
    omega

@[simp] theorem length_encryptBlocks (c : BlockCipher) (previous : Block) (blocks : List Block) :
    (encryptBlocks c previous blocks).length = blocks.length := by
  induction blocks generalizing previous with
  | nil => rfl
  | cons b blocks ih => rw [encryptBlocks, List.length_cons, ih, List.length_cons]

/-- Padding adds one block at most. -/
theorem length_encrypt_le (c : BlockCipher) (start : Block) (plain : Bytes) :
    (encrypt c start plain).length ≤ plain.length + 16 := by
  have hpad : (pad plain).length = plain.length + (16 - plain.length % 16) := by simp [pad]
  have hwhole : (pad plain).length = 16 * ((pad plain).length / 16) :=
    (Nat.mul_div_cancel' (Nat.dvd_of_mod_eq_zero (length_pad plain))).symm
  have hblocks := congrArg List.length (ofBlocks_toBlocks hwhole)
  rw [length_ofBlocks] at hblocks
  rw [encrypt, length_ofBlocks, length_encryptBlocks]
  omega

theorem decryptBlocks_encryptBlocks {c : BlockCipher} (h : ∀ b, c.decrypt (c.encrypt b) = b)
    (previous : Block) (blocks : List Block) :
    decryptBlocks c previous (encryptBlocks c previous blocks) = blocks := by
  induction blocks generalizing previous with
  | nil => rfl
  | cons b blocks ih => rw [encryptBlocks, decryptBlocks, h, Octets.xor_xor_cancel, ih]

theorem unpad_append_replicate (bs : Bytes) {n : Nat} (hpos : 0 < n) (hle : n ≤ 16) :
    unpad (bs ++ List.replicate n (UInt8.ofNat n)) = some bs := by
  have hvalue : (UInt8.ofNat n).toNat = n :=
    UInt8.toNat_ofNat_of_lt' (by simp only [UInt8.size]; omega)
  have hlast : (bs ++ List.replicate n (UInt8.ofNat n)).getLast? = some (UInt8.ofNat n) := by
    rw [List.getLast?_append, List.getLast?_replicate, if_neg (by omega)]
    rfl
  have hlen : (bs ++ List.replicate n (UInt8.ofNat n)).length - n = bs.length := by simp
  have hvalid : ¬(n = 0 ∨ 16 < n ∨ (bs ++ List.replicate n (UInt8.ofNat n)).length < n) := by
    rw [List.length_append, List.length_replicate]
    omega
  simp only [unpad, hlast, hvalue, if_neg hvalid, hlen]
  simp

theorem unpad_pad (bs : Bytes) : unpad (pad bs) = some bs :=
  unpad_append_replicate bs (by omega) (by omega)

/-- A message comes back as it was encrypted. -/
theorem decrypt_encrypt {c : BlockCipher} (h : ∀ b, c.decrypt (c.encrypt b) = b) (start : Block)
    (plain : Bytes) :
    decrypt c start (encrypt c start plain) = some plain := by
  obtain ⟨n, hn⟩ : ∃ n, (pad plain).length = 16 * n :=
    ⟨(pad plain).length / 16, by have := length_pad plain; omega⟩
  have hpos : 0 < n := by
    have hlen : (pad plain).length = plain.length + (16 - plain.length % 16) := by simp [pad]
    omega
  have hblocks : (toBlocks (pad plain)).length = n := by
    have hlen := congrArg List.length (ofBlocks_toBlocks hn)
    rw [length_ofBlocks, hn] at hlen
    omega
  have hlen : (encrypt c start plain).length = 16 * n := by
    rw [encrypt, length_ofBlocks, length_encryptBlocks, hblocks]
  have hwhole : ¬(encrypt c start plain = [] ∨ (encrypt c start plain).length % 16 ≠ 0) := by
    rw [hlen, not_or]
    refine ⟨fun hnil => ?_, by omega⟩
    rw [hnil, List.length_nil] at hlen
    omega
  rw [decrypt, if_neg hwhole, encrypt, toBlocks_ofBlocks, decryptBlocks_encryptBlocks h,
    ofBlocks_toBlocks hn, unpad_pad]

end Cbc

end DoubleRatchet
