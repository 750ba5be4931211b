import DoubleRatchet.Proofs.Engine.Runs
import DoubleRatchet.Proofs.Store.Entries

/-!
# Making one-time pre-keys

Pre-keys are made one after the other, each under the next id and each stored
at once, until there are as many as are wanted or the ids run out. What is made
by then stays stored, and is published only if nothing ran out. A bundle has a
signed pre-key more, for which there must be an id too. Main statements:
`PreKeys.outcome_generate` and `PreKeys.outcome_generateBundle`.
-/
namespace DoubleRatchet

namespace Stores

/-- The stores with more one-time pre-keys, each under its own id. -/
def stock (s : Stores) (rs : List PreKeyRecord) : Stores :=
  rs.foldl (fun s r => s.storePreKey r.id r) s

@[simp] theorem stock_nil (s : Stores) : s.stock [] = s := rfl

@[simp] theorem stock_cons (s : Stores) (r : PreKeyRecord) (rs : List PreKeyRecord) :
    s.stock (r :: rs) = (s.storePreKey r.id r).stock rs := rfl

/-- Nothing but the one-time pre-keys changes. -/
theorem stock_eq (s : Stores) (rs : List PreKeyRecord) :
    s.stock rs = { s with preKeys := (s.stock rs).preKeys } := by
  induction rs generalizing s with
  | nil => rfl
  | cons r rs ih => exact ih (s.storePreKey r.id r)

variable {s : Stores} {rs : List PreKeyRecord}

theorem get?_stock_of_notMem {id : UInt32} (h : id ∉ rs.map (·.id)) :
    (s.stock rs).preKeys.get? id = s.preKeys.get? id := by
  induction rs generalizing s with
  | nil => rfl
  | cons r rs ih =>
    rw [List.map_cons, List.mem_cons, not_or] at h
    rw [stock_cons, ih h.2, storePreKey, Table.get?_insert, if_neg h.1]

theorem get?_stock_of_mem (hids : (rs.map (·.id)).Nodup) {r : PreKeyRecord} (hr : r ∈ rs) :
    (s.stock rs).preKeys.get? r.id = some r := by
  induction rs generalizing s with
  | nil => cases hr
  | cons first rs ih =>
    obtain ⟨hfirst, hrest⟩ := List.nodup_cons.mp hids
    rcases List.mem_cons.mp hr with rfl | hr
    · rw [stock_cons, get?_stock_of_notMem hfirst, storePreKey, Table.get?_insert, if_pos rfl]
    · exact ih hrest hr

/-- What is stored afterwards is new or was there before. -/
theorem mem_of_get?_stock {id : UInt32} {r : PreKeyRecord}
    (h : (s.stock rs).preKeys.get? id = some r) :
    r ∈ rs ∧ r.id = id ∨ s.preKeys.get? id = some r := by
  induction rs generalizing s with
  | nil => exact .inr h
  | cons first rs ih =>
    rw [stock_cons] at h
    rcases ih h with ⟨hr, hid⟩ | hbefore
    · exact .inl ⟨List.mem_cons_of_mem _ hr, hid⟩
    · rw [storePreKey, Table.get?_insert] at hbefore
      split at hbefore
      · next heq =>
        obtain rfl := Option.some_inj.mp hbefore
        exact .inl ⟨List.mem_cons_self, heq.symm⟩
      · exact .inr hbefore

/-- What is stored under a new id takes no place of another. -/
theorem get?_stock_of_new (hnew : ∀ r ∈ rs, s.preKeys.get? r.id = none) {id : UInt32}
    {r : PreKeyRecord} (hr : s.preKeys.get? id = some r) :
    (s.stock rs).preKeys.get? id = some r := by
  have hother : id ∉ rs.map (·.id) := by
    intro hid
    obtain ⟨r', hr', rfl⟩ := List.mem_map.mp hid
    rw [hnew r' hr'] at hr
    cases hr
  rw [get?_stock_of_notMem hother, hr]

/-- The stores stay as they are exactly if every pre-key was there already. -/
theorem stock_eq_self_iff (hids : (rs.map (·.id)).Nodup) :
    s.stock rs = s ↔ ∀ r ∈ rs, s.preKeys.get? r.id = some r := by
  constructor
  · intro h r hr
    have hstored := get?_stock_of_mem (s := s) hids hr
    rwa [h] at hstored
  · intro h
    induction rs with
    | nil => rfl
    | cons r rs ih =>
      obtain ⟨hr, hrest⟩ := List.forall_mem_cons.mp h
      have hsame : s.storePreKey r.id r = s := by rw [storePreKey, Table.insert_of_get? hr]
      rw [stock_cons, hsame]
      exact ih (List.nodup_cons.mp hids).2 hrest

/-- Under new ids they are that many more. -/
theorem size_stock (hids : (rs.map (·.id)).Nodup) (hnew : ∀ r ∈ rs, s.preKeys.get? r.id = none) :
    (s.stock rs).preKeys.size = s.preKeys.size + rs.length := by
  induction rs generalizing s with
  | nil => rfl
  | cons r rs ih =>
    obtain ⟨hr, hrest⟩ := List.forall_mem_cons.mp hnew
    obtain ⟨hother, hids⟩ := List.nodup_cons.mp hids
    have hlater : ∀ r' ∈ rs, (s.storePreKey r.id r).preKeys.get? r'.id = none := by
      intro r' hr'
      have hne : r'.id ≠ r.id := fun heq => hother (List.mem_map.mpr ⟨r', hr', heq⟩)
      rw [storePreKey, Table.get?_insert, if_neg hne, hrest r' hr']
    have hmore : (s.storePreKey r.id r).preKeys.size = s.preKeys.size + 1 :=
      Table.size_insert_new hr
    rw [stock_cons, ih hids hlater, hmore, List.length_cons, Nat.add_assoc, Nat.add_comm 1]

end Stores

namespace PreKeys

/-- The ids under which one-time pre-keys are made. -/
def idsFrom : (id count : Nat) → List UInt32
  | _, 0 => []
  | id, count + 1 => if UInt32.size ≤ id then [] else UInt32.ofNat id :: idsFrom (id + 1) count

/-- They go up from the first one, and end with the ids that there are. -/
theorem map_toNat_idsFrom (id count : Nat) :
    (idsFrom id count).map UInt32.toNat = List.range' id (min count (UInt32.size - id)) := by
  induction count generalizing id with
  | zero => rw [idsFrom, Nat.zero_min, List.map_nil, List.range'_zero]
  | succ count ih =>
    rw [idsFrom]
    by_cases hid : UInt32.size ≤ id
    · rw [if_pos hid, Nat.sub_eq_zero_of_le hid, Nat.min_zero, List.map_nil, List.range'_zero]
    · have hroom : min (count + 1) (UInt32.size - id) = min count (UInt32.size - (id + 1)) + 1 := by
        omega
      rw [if_neg hid, List.map_cons, UInt32.toNat_ofNat_of_lt' (Nat.not_le.mp hid), ih,
        hroom, List.range'_succ]

theorem length_idsFrom (id count : Nat) :
    (idsFrom id count).length = min count (UInt32.size - id) := by
  rw [← List.length_map UInt32.toNat, map_toNat_idsFrom, List.length_range']

theorem nodup_idsFrom (id count : Nat) : (idsFrom id count).Nodup := by
  refine List.Nodup.of_map UInt32.toNat ?_
  rw [map_toNat_idsFrom]
  exact List.nodup_range'

theorem mem_idsFrom {id count : Nat} {n : UInt32} :
    n ∈ idsFrom id count ↔ id ≤ n.toNat ∧ n.toNat < id + count := by
  have hmem : n ∈ idsFrom id count ↔ n.toNat ∈ (idsFrom id count).map UInt32.toNat := by
    rw [List.mem_map_of_injective fun a b => UInt32.toNat_inj.mp]
  have hn := n.toNat_lt
  rw [hmem, map_toNat_idsFrom, List.mem_range'_1]
  change n.toNat < UInt32.size at hn
  omega

variable [Suite]

/-- The one-time pre-keys that are drawn for the ids from `id` on, as many as
there are ids for. -/
def batch : (id count : Nat) → Draw (List PreKeyRecord)
  | _, 0 => return []
  | id, count + 1 =>
    if UInt32.size ≤ id then return []
    else do
      let pair ← Draw.keyPair
      return ⟨UInt32.ofNat id, pair⟩ :: (← batch (id + 1) count)

theorem batch_succ {id : Nat} (h : id < UInt32.size) (count : Nat) (e : Entropy) :
    batch id (count + 1) e =
      (⟨UInt32.ofNat id, (Draw.keyPair e).1⟩ :: (batch (id + 1) count (Draw.keyPair e).2).1,
        (batch (id + 1) count (Draw.keyPair e).2).2) := by
  rw [batch, if_neg (Nat.not_le.mpr h)]
  rfl

theorem batch_of_size_le {id : Nat} (h : UInt32.size ≤ id) (count : Nat) (e : Entropy) :
    batch id count e = ([], e) := by
  cases count with
  | zero => rfl
  | succ count =>
    rw [batch, if_pos h]
    rfl

theorem ids_batch (id count : Nat) (e : Entropy) :
    (batch id count e).1.map (·.id) = idsFrom id count := by
  induction count generalizing id e with
  | zero => rfl
  | succ count ih =>
    rw [idsFrom]
    by_cases hid : UInt32.size ≤ id
    · rw [if_pos hid, batch_of_size_le hid, List.map_nil]
    · rw [if_neg hid, batch_succ (Nat.not_le.mp hid), List.map_cons, ih]

theorem nodup_ids_batch (id count : Nat) (e : Entropy) :
    ((batch id count e).1.map (·.id)).Nodup := by
  rw [ids_batch]
  exact nodup_idsFrom id count

theorem length_batch (id count : Nat) (e : Entropy) :
    (batch id count e).1.length = min count (UInt32.size - id) := by
  rw [← List.length_map (·.id), ids_batch, length_idsFrom]

theorem genuine_batch {id count : Nat} {e : Entropy} {r : PreKeyRecord}
    (h : r ∈ (batch id count e).1) :
    r.keyPair.Genuine := by
  induction count generalizing id e with
  | zero => cases h
  | succ count ih =>
    by_cases hid : UInt32.size ≤ id
    · rw [batch_of_size_le hid] at h
      cases h
    · rw [batch_succ (Nat.not_le.mp hid)] at h
      rcases List.mem_cons.mp h with rfl | h
      · exact genuine_keyPair e
      · exact ih h

/-- The device after one more one-time pre-key. -/
def stocked (id : Nat) (d : Device) : Device :=
  ⟨d.stores.storePreKey (UInt32.ofNat id) ⟨UInt32.ofNat id, (Draw.keyPair d.entropy).1⟩,
    (Draw.keyPair d.entropy).2⟩

theorem outcome_generate_succ (id count : Nat) (d : Device) :
    outcome (generate id (count + 1)) d =
      if UInt32.size ≤ id then (.error (.session (.invalidState .preKeyIdsExhausted)), d)
      else match outcome (generate (id + 1) count) (stocked id d) with
        | (.ok keys, d') =>
          (.ok (publish ⟨UInt32.ofNat id, (Draw.keyPair d.entropy).1⟩ :: keys), d')
        | (.error fault, d') => (.error fault, d') := by
  rw [generate]
  by_cases hid : UInt32.size ≤ id
  · simp [hid]
  · simp only [hid, if_false, outcome_bind, outcome_pure, Action.outcome_draw,
      Action.outcome_update, stocked]
    rcases outcome (generate (id + 1) count) _ with ⟨_ | keys, d'⟩ <;> rfl

/-- All pre-keys that are made are stored, whether they are published or not. They
are published if there is an id for each. -/
theorem outcome_generate (id count : Nat) (d : Device) :
    outcome (generate id count) d =
      (if count = 0 ∨ id + count ≤ UInt32.size then .ok ((batch id count d.entropy).1.map publish)
        else .error (.session (.invalidState .preKeyIdsExhausted)),
        ⟨d.stores.stock (batch id count d.entropy).1, (batch id count d.entropy).2⟩) := by
  induction count generalizing id d with
  | zero => rfl
  | succ count ih =>
    rw [outcome_generate_succ]
    by_cases hid : UInt32.size ≤ id
    · rw [if_pos hid, if_neg (by omega), batch_of_size_le hid]
      rfl
    · have hroom : (count + 1 = 0 ∨ id + (count + 1) ≤ UInt32.size) ↔
          (count = 0 ∨ id + 1 + count ≤ UInt32.size) := by
        omega
      rw [if_neg hid, ih, batch_succ (Nat.not_le.mp hid)]
      simp only [hroom]
      by_cases hlater : count = 0 ∨ id + 1 + count ≤ UInt32.size
      · simp only [if_pos hlater]
        rfl
      · simp only [if_neg hlater]
        rfl

variable {id count : Nat} {d d' : Device} {keys : List PublishedPreKey}

/-- What is published if nothing runs out, and what is left then. -/
theorem generate_ok : outcome (generate id count) d = (.ok keys, d') ↔
    (count = 0 ∨ id + count ≤ UInt32.size) ∧ keys = (batch id count d.entropy).1.map publish ∧
      d' = ⟨d.stores.stock (batch id count d.entropy).1, (batch id count d.entropy).2⟩ := by
  rw [outcome_generate]
  by_cases hroom : count = 0 ∨ id + count ≤ UInt32.size
  · rw [if_pos hroom, Prod.mk.injEq, Except.ok.injEq]
    constructor
    · rintro ⟨rfl, rfl⟩
      exact ⟨hroom, rfl, rfl⟩
    · rintro ⟨-, rfl, rfl⟩
      exact ⟨rfl, rfl⟩
  · rw [if_neg hroom]
    constructor
    · intro h
      cases h
    · rintro ⟨hroom', -⟩
      exact absurd hroom' hroom

/-- Nothing but the one-time pre-keys changes. -/
theorem stores_generate {result : Except SessionError (List PublishedPreKey)}
    (h : outcome (generate id count) d = (result, d')) :
    d'.stores = { d.stores with preKeys := d'.stores.preKeys } := by
  rw [outcome_generate] at h
  obtain ⟨-, rfl⟩ := Prod.mk.inj h
  exact Stores.stock_eq ..

/-- The published keys are those of pre-keys that are stored. -/
theorem stored_of_generate (h : outcome (generate id count) d = (.ok keys, d')) :
    ∀ k ∈ keys, ∃ r, d'.stores.preKeys.get? k.id = some r ∧ k = publish r := by
  obtain ⟨-, rfl, rfl⟩ := generate_ok.mp h
  intro k hk
  obtain ⟨r, hr, rfl⟩ := List.mem_map.mp hk
  exact ⟨r, Stores.get?_stock_of_mem (nodup_ids_batch ..) hr, rfl⟩

/-- Under other ids nothing changes. -/
theorem get?_generate_of_notMem (id count : Nat) (d : Device) {other : UInt32}
    (h : other ∉ idsFrom id count) :
    (outcome (generate id count) d).2.stores.preKeys.get? other = d.stores.preKeys.get? other := by
  rw [outcome_generate]
  exact Stores.get?_stock_of_notMem (by rwa [ids_batch])

omit [Suite] in
theorem nextSignedId_stock (s : Stores) (rs : List PreKeyRecord) :
    nextSignedId (s.stock rs) = nextSignedId s := by
  rw [Stores.stock_eq, nextSignedId, nextSignedId]

/-- The signed pre-key is made after the others, and only if there is an id for it. -/
theorem outcome_generateBundle (deviceId start : UInt32) (count : Nat) (now : UInt64) (d : Device) :
    outcome (generateBundle deviceId start count now) d =
      match outcome (generate start.toNat count) d with
      | (.error fault, d₁) => (.error fault, d₁)
      | (.ok keys, d₁) =>
        match nextSignedId d.stores with
        | .error fault => (.error fault, d₁)
        | .ok id =>
          let signed := generateSigned id d.stores.identity.keyPair now d₁.entropy
          let s := d₁.stores.storeSignedPreKey id signed.1
          (.ok (bundle s deviceId signed.1 keys), ⟨s, signed.2⟩) := by
  have hnext :
      nextSignedId (outcome (generate start.toNat count) d).2.stores = nextSignedId d.stores := by
    rw [outcome_generate, nextSignedId_stock]
  unfold generateBundle
  rw [outcome_bind, Action.outcome_stores]
  dsimp only
  rw [outcome_bind]
  generalize outcome (generate start.toNat count) d = made at hnext ⊢
  rcases made with ⟨fault | keys, d₁⟩
  · rfl
  · simp only [outcome_bind, Action.outcome_stores, Action.outcome_ofExcept, hnext]
    cases nextSignedId d.stores with
    | error fault => rfl
    | ok id => rfl

theorem generateBundle_ok {deviceId start : UInt32} {now : UInt64} {p : PublishedBundle} :
    outcome (generateBundle deviceId start count now) d = (.ok p, d') ↔
      ∃ keys d₁ id, outcome (generate start.toNat count) d = (.ok keys, d₁) ∧
      nextSignedId d.stores = .ok id ∧
        d' = ⟨d₁.stores.storeSignedPreKey id
          (generateSigned id d.stores.identity.keyPair now d₁.entropy).1,
          (generateSigned id d.stores.identity.keyPair now d₁.entropy).2⟩ ∧
        p = bundle d'.stores deviceId
          (generateSigned id d.stores.identity.keyPair now d₁.entropy).1 keys := by
  rw [outcome_generateBundle]
  constructor
  · intro h
    rcases hkeys : outcome (generate start.toNat count) d with
      ⟨fault | keys, d₁⟩ <;> rw [hkeys] at h
    · cases h
    cases hid : nextSignedId d.stores with
    | error fault =>
      rw [hid] at h
      cases h
    | ok id =>
      rw [hid] at h
      obtain ⟨hp, rfl⟩ := Prod.mk.inj h
      exact ⟨keys, d₁, id, rfl, rfl, rfl, (Except.ok.inj hp).symm⟩
  · rintro ⟨keys, d₁, id, hkeys, hid, rfl, rfl⟩
    rw [hkeys, hid]

end PreKeys

end DoubleRatchet
