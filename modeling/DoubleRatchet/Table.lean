import DoubleRatchet.Bytes

/-!
# Ordered tables

A finite map as a list of entries in strictly increasing order of keys. Two
tables with the same entry at every key are equal, and so are tables filled in
different orders. Main statements: `get?_insert`, `get?_erase`, `ext_get?`.
-/
namespace DoubleRatchet

structure Table (K V : Type) [Ord K] where
  entries : List (K × V)
  sorted : entries.Pairwise fun a b => compare a.1 b.1 = .lt

namespace Table

variable {K V : Type} [Ord K]

def empty : Table K V := ⟨[], .nil⟩

instance : Inhabited (Table K V) := ⟨empty⟩

def size (t : Table K V) : Nat := t.entries.length

def isEmpty (t : Table K V) : Bool := t.entries.isEmpty

def keys (t : Table K V) : List K := t.entries.map Prod.fst

def values (t : Table K V) : List V := t.entries.map Prod.snd

/-- The value at a key. -/
def find : List (K × V) → K → Option V
  | [], _ => none
  | (k, v) :: rest, key => if compare key k = .eq then some v else find rest key

def get? (t : Table K V) (key : K) : Option V := find t.entries key

def contains (t : Table K V) (key : K) : Bool := (t.get? key).isSome

/-- Puts an entry in its place, or in the place of the one with its key. -/
def place (key : K) (value : V) : List (K × V) → List (K × V)
  | [] => [(key, value)]
  | (k, v) :: rest =>
    match compare key k with
    | .lt => (key, value) :: (k, v) :: rest
    | .eq => (key, value) :: rest
    | .gt => (k, v) :: place key value rest

theorem mem_place {key : K} {value : V} {e : K × V} {l : List (K × V)}
    (h : e ∈ place key value l) : e = (key, value) ∨ e ∈ l := by
  induction l with
  | nil => simpa [place] using h
  | cons hd tl ih =>
    obtain ⟨k, v⟩ := hd
    rw [place] at h
    split at h <;> grind

/-- The greatest key. -/
def maxKey? (t : Table K V) : Option K := t.entries.getLast?.map Prod.fst

/-- The entries that satisfy a condition. -/
def filter (t : Table K V) (p : K → V → Bool) : Table K V :=
  ⟨t.entries.filter fun e => p e.1 e.2, t.sorted.filter _⟩

variable [Std.TransOrd K] [Std.LawfulEqOrd K]

theorem sorted_place (key : K) (value : V) {l : List (K × V)}
    (h : l.Pairwise fun a b => compare a.1 b.1 = .lt) :
    (place key value l).Pairwise fun a b => compare a.1 b.1 = .lt := by
  induction l with
  | nil => simp [place]
  | cons hd tl ih =>
    obtain ⟨k, v⟩ := hd
    rw [List.pairwise_cons] at h
    rw [place]
    split
    · rename_i hlt
      refine List.pairwise_cons.2 ⟨?_, List.pairwise_cons.2 h⟩
      intro e he
      rcases List.mem_cons.1 he with rfl | he
      · exact hlt
      · exact Std.TransCmp.lt_trans hlt (h.1 e he)
    · rename_i heq
      have : key = k := Std.LawfulEqCmp.eq_of_compare heq
      subst this
      exact List.pairwise_cons.2 h
    · rename_i hgt
      refine List.pairwise_cons.2 ⟨?_, ih h.2⟩
      intro e he
      rcases mem_place he with rfl | he
      · exact Std.OrientedCmp.lt_of_gt hgt
      · exact h.1 e he

/-- Sets the value at a key. -/
def insert (t : Table K V) (key : K) (value : V) : Table K V :=
  ⟨place key value t.entries, sorted_place key value t.sorted⟩

/-- Removes the entry at a key. -/
def erase (t : Table K V) (key : K) : Table K V := t.filter fun k _ => compare key k ≠ .eq

/-- The table of a list of entries, later ones replacing earlier ones. -/
def ofList (l : List (K × V)) : Table K V := l.foldl (fun t e => t.insert e.1 e.2) empty

omit [Std.TransOrd K] in
theorem find_place_self (key : K) (value : V) (l : List (K × V)) :
    find (place key value l) key = some value := by
  induction l with
  | nil => simp [place, find, Std.ReflCmp.compare_self]
  | cons hd tl ih =>
    obtain ⟨k, v⟩ := hd
    rw [place]
    split <;> simp_all [find, Std.ReflCmp.compare_self]

omit [Std.TransOrd K] in
theorem find_place_ne {key other : K} (value : V) (l : List (K × V)) (h : other ≠ key) :
    find (place key value l) other = find l other := by
  have hc : compare other key ≠ .eq := fun he => h (Std.LawfulEqCmp.eq_of_compare he)
  induction l with
  | nil => simp [place, find, hc]
  | cons hd tl ih =>
    obtain ⟨k, v⟩ := hd
    rw [place]
    split
    · simp [find, hc]
    · rename_i heq
      have : key = k := Std.LawfulEqCmp.eq_of_compare heq
      subst this
      simp [find, hc]
    · simp [find, ih]

theorem get?_insert (t : Table K V) (key other : K) (value : V) [DecidableEq K] :
    (t.insert key value).get? other = if other = key then some value else t.get? other := by
  split
  · rename_i h; subst h; exact find_place_self ..
  · rename_i h; exact find_place_ne value t.entries h

omit [Std.TransOrd K] in
theorem find_filter_ne (key other : K) (l : List (K × V)) (h : other ≠ key) :
    find (l.filter fun e => compare key e.1 ≠ .eq) other = find l other := by
  induction l with
  | nil => rfl
  | cons hd tl ih =>
    obtain ⟨k, v⟩ := hd
    by_cases hk : compare key k = .eq
    · have : key = k := Std.LawfulEqCmp.eq_of_compare hk
      subst this
      have hc : compare other key ≠ .eq := fun he => h (Std.LawfulEqCmp.eq_of_compare he)
      simp_all [find]
    · simp_all [find]

omit [Std.TransOrd K] in
theorem find_filter_self (key : K) (l : List (K × V)) :
    find (l.filter fun e => compare key e.1 ≠ .eq) key = none := by
  induction l with
  | nil => rfl
  | cons hd tl ih =>
    obtain ⟨k, v⟩ := hd
    by_cases hk : compare key k = .eq <;> simp_all [find]

omit [Std.TransOrd K] in
theorem get?_erase (t : Table K V) (key other : K) [DecidableEq K] :
    (t.erase key).get? other = if other = key then none else t.get? other := by
  split
  · rename_i h; subst h; exact find_filter_self ..
  · rename_i h; exact find_filter_ne key other t.entries h

omit [Std.TransOrd K] [Std.LawfulEqOrd K] in
theorem find_eq_none_of_lt {l : List (K × V)} {key : K} (h : ∀ e ∈ l, compare key e.1 = .lt) :
    find l key = none := by
  induction l with
  | nil => rfl
  | cons e l ih =>
    obtain ⟨hlt, hl⟩ := List.forall_mem_cons.mp h
    rw [find, if_neg (by rw [hlt]; decide), ih hl]

/-- What is in order in front of a key is not found behind it. -/
theorem find_behind {l : List (K × V)} {key first : K} (h : ∀ e ∈ l, compare first e.1 = .lt)
    (hkey : compare key first ≠ .gt) : find l key = none := by
  refine find_eq_none_of_lt fun e he => ?_
  cases hcmp : compare key first with
  | lt => exact Std.TransCmp.lt_trans hcmp (h e he)
  | eq => exact Std.LawfulEqCmp.eq_of_compare hcmp ▸ h e he
  | gt => exact absurd hcmp hkey

theorem eq_of_find {l l' : List (K × V)} (hl : l.Pairwise fun a b => compare a.1 b.1 = .lt)
    (hl' : l'.Pairwise fun a b => compare a.1 b.1 = .lt) (h : ∀ key, find l key = find l' key) :
    l = l' := by
  induction l generalizing l' with
  | nil =>
    cases l' with
    | nil => rfl
    | cons e rest =>
      have hfound := h e.1
      simp [find, Std.ReflCmp.compare_self] at hfound
  | cons e rest ih =>
    obtain ⟨k, v⟩ := e
    obtain ⟨hfirst, hrest⟩ := List.pairwise_cons.mp hl
    cases l' with
    | nil =>
      have hfound := h k
      simp [find, Std.ReflCmp.compare_self] at hfound
    | cons e' rest' =>
      obtain ⟨k', v'⟩ := e'
      obtain ⟨hfirst', hrest'⟩ := List.pairwise_cons.mp hl'
      have hk := h k
      have hk' := h k'
      simp only [find, Std.ReflCmp.compare_self, if_true] at hk hk'
      cases hcmp : compare k k' with
      | lt =>
        rw [if_neg (by rw [hcmp]; decide), find_behind hfirst' (by rw [hcmp]; decide)] at hk
        cases hk
      | gt =>
        have hlt := Std.OrientedCmp.lt_of_gt hcmp
        rw [if_neg (by rw [hlt]; decide), find_behind hfirst (by rw [hlt]; decide)] at hk'
        cases hk'
      | eq =>
        obtain rfl := Std.LawfulEqCmp.eq_of_compare hcmp
        rw [if_pos hcmp] at hk
        obtain rfl := Option.some_inj.mp hk
        congr 1
        refine ih hrest hrest' fun key => ?_
        by_cases hkey : compare key k = .eq
        · rw [find_behind hfirst (by rw [hkey]; decide), find_behind hfirst' (by rw [hkey]; decide)]
        · have hnext := h key
          simpa only [find, if_neg hkey] using hnext

/-- Two tables with the same entry at every key are equal. -/
theorem ext_get? {t u : Table K V} (h : ∀ key, t.get? key = u.get? key) : t = u := by
  obtain ⟨l, hl⟩ := t
  obtain ⟨l', hl'⟩ := u
  obtain rfl : l = l' := eq_of_find hl hl' h
  rfl

end Table

end DoubleRatchet
