import DoubleRatchet.Table

/-!
# Entries of a table in order

What is found in a table is one of its entries, and no key of an entry is above
the greatest one. An entry under a key above all others goes to the end, and one
under a new key is one more.
-/
namespace DoubleRatchet.Table

variable {K V : Type} [Ord K] {t : Table K V} {key : K} {value : V}

section Order

variable [Std.LawfulEqOrd K]

/-- In an ordered list an entry is found by its key. -/
theorem find_of_mem {l : List (K × V)} (hl : l.Pairwise fun a b => compare a.1 b.1 = .lt)
    (h : (key, value) ∈ l) :
    find l key = some value := by
  induction l with
  | nil => cases h
  | cons first rest ih =>
    obtain ⟨hfirst, hrest⟩ := List.pairwise_cons.mp hl
    rw [find]
    rcases List.mem_cons.mp h with rfl | h
    · exact if_pos Std.ReflCmp.compare_self
    · have hlt := hfirst _ h
      have hne : compare key first.1 ≠ .eq := by
        intro heq
        obtain rfl := Std.LawfulEqCmp.eq_of_compare heq
        rw [heq] at hlt
        cases hlt
      rw [if_neg hne]
      exact ih hrest h

theorem mem_of_find {l : List (K × V)} (h : find l key = some value) : (key, value) ∈ l := by
  induction l with
  | nil => cases h
  | cons first rest ih =>
    rw [find] at h
    split at h
    · next heq =>
      obtain rfl := Std.LawfulEqCmp.eq_of_compare heq
      obtain rfl := Option.some_inj.mp h
      exact List.mem_cons_self
    · exact List.mem_cons_of_mem _ (ih h)

theorem mem_entries : (key, value) ∈ t.entries ↔ t.get? key = some value :=
  ⟨find_of_mem t.sorted, mem_of_find⟩

theorem mem_values : value ∈ t.values ↔ ∃ key, t.get? key = some value := by
  constructor
  · intro h
    obtain ⟨⟨key, _⟩, hentry, rfl⟩ := List.mem_map.mp h
    exact ⟨key, mem_entries.mp hentry⟩
  · rintro ⟨key, hkey⟩
    exact List.mem_map.mpr ⟨(key, value), mem_entries.mpr hkey, rfl⟩

theorem mem_keys (h : t.get? key ≠ none) : key ∈ t.keys := by
  obtain ⟨value, hvalue⟩ := Option.ne_none_iff_exists'.mp h
  exact List.mem_map.mpr ⟨(key, value), mem_entries.mpr hvalue, rfl⟩

omit [Std.LawfulEqOrd K] in
/-- A table that has no greatest key has no entry. -/
theorem get?_of_maxKey?_none (h : t.maxKey? = none) (key : K) : t.get? key = none := by
  rw [maxKey?, Option.map_eq_none_iff, List.getLast?_eq_none_iff] at h
  rw [get?, h]
  rfl

/-- Every other key is in front of the greatest one. -/
theorem lt_maxKey? {max : K} (h : t.maxKey? = some max) (hkey : t.get? key = some value) :
    key = max ∨ compare key max = .lt := by
  obtain ⟨last, hlast, rfl⟩ := Option.map_eq_some_iff.mp h
  obtain ⟨front, hfront⟩ := List.getLast?_eq_some_iff.mp hlast
  have hsorted := t.sorted
  have hmem := mem_entries.mpr hkey
  rw [hfront, List.mem_append, List.mem_singleton] at hmem
  rw [hfront] at hsorted
  rcases hmem with hmem | rfl
  · exact .inr ((List.pairwise_append.mp hsorted).2.2 _ hmem _ List.mem_cons_self)
  · exact .inl rfl

end Order

/-- Of numbers none is above the greatest one. -/
theorem le_maxKey? {V : Type} {t : Table UInt32 V} {key max : UInt32} {value : V}
    (h : t.maxKey? = some max) (hkey : t.get? key = some value) : key ≤ max := by
  rcases lt_maxKey? h hkey with rfl | hlt
  · exact UInt32.le_refl _
  · exact UInt32.le_of_lt (Std.compare_eq_lt.mp hlt)

variable [Std.TransOrd K] [Std.LawfulEqOrd K]

/-- To set what is set already changes nothing. -/
theorem insert_of_get? [DecidableEq K] (h : t.get? key = some value) : t.insert key value = t := by
  refine ext_get? fun other => ?_
  rw [get?_insert]
  split
  · next heq => rw [heq, h]
  · rfl

omit [Std.LawfulEqOrd K] in
theorem place_above {l : List (K × V)} (h : ∀ e ∈ l, compare e.1 key = .lt) :
    place key value l = l ++ [(key, value)] := by
  induction l with
  | nil => rfl
  | cons first rest ih =>
    obtain ⟨hfirst, hrest⟩ := List.forall_mem_cons.mp h
    have hgt : compare key first.1 = .gt := Std.OrientedCmp.gt_of_lt hfirst
    rw [place, hgt]
    exact congrArg _ (ih hrest)

/-- What is set under a key above all others comes last. -/
theorem values_insert_above (h : ∀ other v, t.get? other = some v → compare other key = .lt) :
    (t.insert key value).values = t.values ++ [value] := by
  have hplace : (t.insert key value).entries = t.entries ++ [(key, value)] :=
    place_above fun e he => h e.1 e.2 (mem_entries.mp he)
  rw [values, hplace, List.map_append, values]
  rfl

omit [Std.TransOrd K] [Std.LawfulEqOrd K] in
/-- An entry with a new key is one more. -/
theorem perm_place {l : List (K × V)} (h : ∀ e ∈ l, compare key e.1 ≠ .eq) :
    (place key value l).Perm ((key, value) :: l) := by
  induction l with
  | nil => exact .refl _
  | cons e l ih =>
    obtain ⟨k, v⟩ := e
    obtain ⟨hk, hl⟩ := List.forall_mem_cons.mp h
    rw [place]
    split
    · exact .refl _
    · next heq => exact absurd heq hk
    · exact ((ih hl).cons _).trans (.swap _ _ _)

theorem size_insert_new (h : t.get? key = none) : (t.insert key value).size = t.size + 1 := by
  have hnew : ∀ e ∈ t.entries, compare key e.1 ≠ .eq := by
    intro e he heq
    obtain rfl := Std.LawfulEqCmp.eq_of_compare heq
    rw [mem_entries.mp he] at h
    cases h
  exact (perm_place hnew).length_eq

end DoubleRatchet.Table
