import DoubleRatchet.Bytes

/-!
# Variable-length numbers

A number is written in groups of seven bits, the lowest first, and every group
but the last has its high bit set. A reader for numbers of `bits` bits takes as
many groups as such a number can need and refuses larger values; it does not
ask for the shortest form. Main statement: `read_write`.
-/
namespace DoubleRatchet.Varint

/-- The groups that a number of `bits` bits can need. -/
def groups (bits : Nat) : Nat := (bits + 6) / 7

/-- Writes at most `count` groups. -/
def writeGroups : (count : Nat) → Nat → Bytes
  | 0, _ => []
  | count + 1, v =>
    if v < 128 then [UInt8.ofNat v] else UInt8.ofNat (v % 128 + 128) :: writeGroups count (v / 128)

/-- Reads at most `count` groups, the last of which must come. -/
def readGroups : (count : Nat) → Bytes → Option (Nat × Bytes)
  | 0, _ => none
  | _, [] => none
  | count + 1, b :: bs =>
    if b < 128 then some (b.toNat, bs)
    else (readGroups count bs).map fun (v, rest) => (b.toNat - 128 + 128 * v, rest)

/-- The written form of a number of `bits` bits. -/
def write (bits v : Nat) : Bytes := writeGroups (groups bits) v

/-- Reads a number of `bits` bits and gives what follows it. -/
def read (bits : Nat) (bs : Bytes) : Option (Nat × Bytes) :=
  (readGroups (groups bits) bs).filter fun (v, _) => v < 1 <<< bits

theorem readGroups_writeGroups (count v : Nat) (rest : Bytes) (h : v < 1 <<< (7 * count))
    (hc : 0 < count) :
    readGroups count (writeGroups count v ++ rest) = some (v, rest) := by
  induction count generalizing v with
  | zero => omega
  | succ count ih =>
    by_cases hv : v < 128
    · have : UInt8.ofNat v < 128 := by
        rw [UInt8.lt_iff_toNat_lt, UInt8.toNat_ofNat']
        exact Nat.lt_of_le_of_lt (Nat.mod_le _ _) hv
      simp [writeGroups, hv, readGroups, this]
      omega
    · have hp : 0 < count := by
        rcases Nat.eq_zero_or_pos count with h0 | h0
        · subst h0; simp [Nat.shiftLeft_eq] at h; omega
        · exact h0
      have ht : (UInt8.ofNat (v % 128 + 128)).toNat = v % 128 + 128 := by
        rw [UInt8.toNat_ofNat']; omega
      have hn : ¬ UInt8.ofNat (v % 128 + 128) < 128 := by
        rw [UInt8.lt_iff_toNat_lt, ht]
        simp
      have hq : v / 128 < 1 <<< (7 * count) := by
        rw [Nat.div_lt_iff_lt_mul (by decide)]
        simpa [Nat.shiftLeft_eq, Nat.mul_add, Nat.pow_add] using h
      rw [writeGroups, if_neg hv, List.cons_append, readGroups, if_neg hn, ih _ hq hp]
      simp only [Option.map_some, ht, Option.some.injEq, Prod.mk.injEq, and_true]
      omega

theorem read_write (bits v : Nat) (rest : Bytes) (h : v < 1 <<< bits) (hb : 0 < bits) :
    read bits (write bits v ++ rest) = some (v, rest) := by
  have hg : v < 1 <<< (7 * groups bits) := by
    refine Nat.lt_of_lt_of_le h ?_
    rw [Nat.one_shiftLeft, Nat.one_shiftLeft]
    exact Nat.pow_le_pow_right (by decide) (by unfold groups; omega)
  unfold read write
  rw [readGroups_writeGroups _ _ _ hg (by unfold groups; omega)]
  simp [h]

/-- Reading goes on in the same way when more bytes follow. -/
theorem readGroups_append {count v : Nat} {bs rest more : Bytes}
    (h : readGroups count bs = some (v, rest)) :
    readGroups count (bs ++ more) = some (v, rest ++ more) := by
  induction count generalizing bs v with
  | zero => simp [readGroups] at h
  | succ count ih =>
    cases bs with
    | nil => simp [readGroups] at h
    | cons b bs =>
      rw [readGroups] at h
      rw [List.cons_append, readGroups]
      split at h
      · rename_i hb
        rw [if_pos hb]; simp_all
      · rename_i hb
        rw [if_neg hb]
        obtain ⟨⟨w, r⟩, hw, he⟩ := Option.map_eq_some_iff.1 h
        obtain ⟨rfl, rfl⟩ := Prod.mk.inj he
        rw [ih hw]; rfl

end DoubleRatchet.Varint
