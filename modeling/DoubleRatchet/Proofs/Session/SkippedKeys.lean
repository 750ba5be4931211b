import DoubleRatchet.Session.SkippedKeys

/-!
# The entries of the cache of skipped keys

Each operation on the cache in terms of which entries it keeps. An entry is
named by its ratchet key and counter; in a cache with distinct names `erase`
removes exactly the entry of one name.
-/
namespace DoubleRatchet

/-- The ratchet key and the counter of the message that an entry is for. -/
def SkippedKey.name (e : SkippedKey) : PublicKey × UInt32 := (e.ratchetKey, e.keys.counter)

@[simp] theorem SkippedKey.isFor_iff {e : SkippedKey} {r : PublicKey} {n : UInt32} :
    e.isFor r n = true ↔ e.name = (r, n) := by
  simp [isFor, name, and_comm]

namespace SkippedKeys

/-- There is at most one entry for each message. -/
def Distinct (c : SkippedKeys) : Prop := (c.entries.map SkippedKey.name).Nodup

theorem mem_of_mem_erase {c : SkippedKeys} {r : PublicKey} {n : UInt32} {e : SkippedKey}
    (h : e ∈ (c.erase r n).entries) : e ∈ c.entries :=
  List.mem_of_mem_eraseP h

theorem mem_erase_of_ne {c : SkippedKeys} {r : PublicKey} {n : UInt32} {e : SkippedKey}
    (h : e ∈ c.entries) (hne : e.name ≠ (r, n)) : e ∈ (c.erase r n).entries :=
  (List.mem_eraseP_of_neg (by simpa using hne)).mpr h

theorem Distinct.sublist {c c' : SkippedKeys} (h : c.Distinct) (hs : c'.entries.Sublist c.entries) :
    c'.Distinct :=
  List.Nodup.sublist (hs.map _) h

theorem Distinct.erase {c : SkippedKeys} (h : c.Distinct) (r : PublicKey) (n : UInt32) :
    (c.erase r n).Distinct :=
  h.sublist List.eraseP_sublist

theorem Distinct.name_ne_of_mem_erase {c : SkippedKeys} (h : c.Distinct) {r : PublicKey}
    {n : UInt32} {e : SkippedKey} (he : e ∈ (c.erase r n).entries) : e.name ≠ (r, n) := by
  obtain ⟨entries⟩ := c
  simp only [Distinct, SkippedKeys.erase] at h he
  induction entries with
  | nil => simp at he
  | cons a rest ih =>
    rw [List.map_cons, List.nodup_cons] at h
    by_cases ha : a.isFor r n
    · simp only [List.eraseP_cons, ha, cond_true] at he
      rw [SkippedKey.isFor_iff] at ha
      intro hn
      exact h.1 (ha ▸ hn ▸ List.mem_map_of_mem he)
    · simp only [List.eraseP_cons, ha, cond_false] at he
      rw [SkippedKey.isFor_iff] at ha
      rcases List.mem_cons.mp he with rfl | he
      · exact ha
      · exact ih h.2 he

/-- The entries after keys are cached, before any are evicted. -/
def filled (c : SkippedKeys) (r : PublicKey) (keys : MessageKeys)
    (storedAt : UInt64) : List SkippedKey :=
  (c.erase r keys.counter).entries ++ [⟨r, keys, storedAt⟩]

/-- The entries that are evicted when keys are cached. -/
def evicted (c : SkippedKeys) (r : PublicKey) (keys : MessageKeys) (storedAt : UInt64)
    (capacity : Nat) :
    List SkippedKey :=
  (c.filled r keys storedAt).take ((c.filled r keys storedAt).length - capacity)

theorem entries_insert (c : SkippedKeys) (r : PublicKey) (keys : MessageKeys) (storedAt : UInt64)
    (capacity : Nat) : (c.insert r keys storedAt capacity).2.entries =
      (c.filled r keys storedAt).drop ((c.filled r keys storedAt).length - capacity) := rfl

theorem mem_insert {c : SkippedKeys} {r : PublicKey} {keys : MessageKeys} {storedAt : UInt64}
    {capacity : Nat} {e : SkippedKey} (h : e ∈ (c.insert r keys storedAt capacity).2.entries) :
    e ∈ c.entries ∨ e = ⟨r, keys, storedAt⟩ := by
  rw [entries_insert] at h
  rcases List.mem_append.mp (List.mem_of_mem_drop h) with h | h
  · exact .inl (mem_of_mem_erase h)
  · exact .inr (List.mem_singleton.mp h)

/-- Caching keys replaces the entry of their name; the others stay or are evicted. -/
theorem mem_insert_or_evicted {c : SkippedKeys} {r : PublicKey} {keys : MessageKeys}
    {storedAt : UInt64} {e : SkippedKey} (capacity : Nat)
    (h : e = ⟨r, keys, storedAt⟩ ∨ e ∈ c.entries ∧ e.name ≠ (r, keys.counter)) :
    e ∈ (c.insert r keys storedAt capacity).2.entries ∨ e ∈ c.evicted r keys storedAt capacity := by
  have hfull : e ∈ c.filled r keys storedAt := by
    rcases h with rfl | ⟨he, hne⟩
    · simp [filled]
    · exact List.mem_append_left _ (mem_erase_of_ne he hne)
  rw [← List.take_append_drop ((c.filled r keys storedAt).length - capacity)
    (c.filled r keys storedAt)] at hfull
  exact (List.mem_append.mp hfull).symm

theorem Distinct.insert {c : SkippedKeys} (h : c.Distinct) (r : PublicKey) (keys : MessageKeys)
    (storedAt : UInt64) (capacity : Nat) : (c.insert r keys storedAt capacity).2.Distinct := by
  have hfull : ((c.filled r keys storedAt).map SkippedKey.name).Nodup := by
    rw [filled, List.map_append, List.nodup_append]
    refine ⟨h.erase r keys.counter, by simp, ?_⟩
    intro a ha b hb hab
    obtain ⟨e, he, rfl⟩ := List.mem_map.mp ha
    have hb' : b = (r, keys.counter) := by simpa [SkippedKey.name] using hb
    exact h.name_ne_of_mem_erase he (hab.trans hb')
  exact List.Nodup.sublist (List.Sublist.map _ (List.drop_sublist _ _)) hfull

theorem take?_eq_none {c : SkippedKeys} {r : PublicKey} {n : UInt32} :
    c.take? r n = none ↔ ∀ e ∈ c.entries, e.name ≠ (r, n) := by
  simp [take?]

theorem take?_eq_some {c c' : SkippedKeys} {r : PublicKey} {n : UInt32} {keys : MessageKeys}
    (h : c.take? r n = some (keys, c')) :
    (∃ e ∈ c.entries, e.name = (r, n) ∧ e.keys = keys) ∧ c' = c.erase r n := by
  obtain ⟨e, he, heq⟩ := Option.map_eq_some_iff.mp h
  obtain ⟨rfl, rfl⟩ := Prod.mk.inj heq
  have hname := List.find?_some he
  rw [SkippedKey.isFor_iff] at hname
  exact ⟨⟨e, List.mem_of_find?_eq_some he, hname, rfl⟩, rfl⟩

theorem mem_purge {c : SkippedKeys} {r : PublicKey} {e : SkippedKey} :
    e ∈ (c.purge r).2.entries ↔ e ∈ c.entries ∧ e.ratchetKey ≠ r := by
  simp [purge, dropWhere]

theorem mem_prune {c : SkippedKeys} {cutoff : UInt64} {e : SkippedKey} :
    e ∈ (c.prune cutoff).2.entries ↔ e ∈ c.entries ∧ ¬e.storedAt < cutoff := by
  simp [prune, dropWhere]

/-- Purging several chains, as it is done for the chains that are dropped together. -/
theorem mem_purgeAll {keys : List PublicKey} {c : SkippedKeys} {e : SkippedKey} :
    e ∈ (keys.foldl (fun c key => (c.purge key).2) c).entries ↔
      e ∈ c.entries ∧ e.ratchetKey ∉ keys := by
  induction keys generalizing c with
  | nil => simp
  | cons key keys ih => rw [List.foldl_cons, ih, mem_purge, List.mem_cons, not_or, and_assoc]

theorem purgeAll_sublist (keys : List PublicKey) (c : SkippedKeys) :
    (keys.foldl (fun c key => (c.purge key).2) c).entries.Sublist c.entries := by
  induction keys generalizing c with
  | nil => exact List.Sublist.refl _
  | cons key keys ih => exact (ih _).trans List.filter_sublist

theorem Distinct.purgeAll {c : SkippedKeys} (h : c.Distinct) (keys : List PublicKey) :
    (keys.foldl (fun c key => (c.purge key).2) c).Distinct :=
  h.sublist (purgeAll_sublist keys c)

end SkippedKeys

end DoubleRatchet
