import DoubleRatchet.Wire.Varint

/-!
# Laws of variable-length numbers

A number that is read stays the same when more bytes follow, and may be read by
a reader of wider numbers than the writer's.
-/
namespace DoubleRatchet.Varint

theorem read_append {bits v : Nat} {bs rest : Bytes} (h : read bits bs = some (v, rest))
    (more : Bytes) :
    read bits (bs ++ more) = some (v, rest ++ more) := by
  obtain ⟨hgroups, hlt⟩ := Option.filter_eq_some_iff.mp h
  exact Option.filter_eq_some_iff.mpr ⟨readGroups_append hgroups, hlt⟩

/-- A reader that may go on for longer reads the same. -/
theorem readGroups_more {count v : Nat} {bs rest : Bytes} (h : readGroups count bs = some (v, rest))
    (more : Nat) :
    readGroups (count + more) bs = some (v, rest) := by
  induction count generalizing bs v rest with
  | zero => cases h
  | succ count ih =>
    rw [Nat.succ_add]
    cases bs with
    | nil => cases h
    | cons b bs =>
      rw [readGroups] at h ⊢
      split at h
      · next hb => rw [if_pos hb, h]
      · next hb =>
        obtain ⟨⟨w, rest⟩, hw, heq⟩ := Option.map_eq_some_iff.mp h
        rw [if_neg hb, ih hw, Option.map_some, heq]

theorem read_write_wider {bits wide v : Nat} (rest : Bytes) (h : v < 1 <<< bits) (hb : 0 < bits)
    (hw : bits ≤ wide) :
    read wide (write bits v ++ rest) = some (v, rest) := by
  obtain ⟨hgroups, -⟩ := Option.filter_eq_some_iff.mp (read_write bits v rest h hb)
  obtain ⟨more, hmore⟩ :=
    Nat.exists_eq_add_of_le (show groups bits ≤ groups wide by unfold groups; omega)
  have hlt : v < 1 <<< wide := by
    refine Nat.lt_of_lt_of_le h ?_
    rw [Nat.one_shiftLeft, Nat.one_shiftLeft]
    exact Nat.pow_le_pow_right (by decide) hw
  refine Option.filter_eq_some_iff.mpr ⟨?_, decide_eq_true hlt⟩
  rw [hmore]
  exact readGroups_more hgroups more

theorem length_write_le (bits v : Nat) : (write bits v).length ≤ groups bits := by
  unfold write
  generalize groups bits = count
  induction count generalizing v with
  | zero => exact Nat.le_refl 0
  | succ count ih =>
    rw [writeGroups]
    split
    · exact Nat.succ_le_succ (Nat.zero_le count)
    · exact Nat.succ_le_succ (ih (v / 128))

theorem length_write_pos {bits : Nat} (hbits : 0 < bits) (v : Nat) : 0 < (write bits v).length := by
  obtain ⟨count, hcount⟩ :=
    Nat.exists_eq_add_one_of_ne_zero (show groups bits ≠ 0 by unfold groups; omega)
  rw [write, hcount, writeGroups]
  split <;> exact Nat.succ_pos _

end DoubleRatchet.Varint
