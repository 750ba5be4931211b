import DoubleRatchet.Proofs.Workspace.Refinement

/-!
# Replenishing the supply of a store file

The bundle of a store file lists the one-time pre-keys that are in it. When few
are left the supply is filled up first, under ids above all that are in use, and
saved before anything is published. Where there are no such ids the command
fails and touches no file. Main statement: `bundle_replenishes`.
-/
namespace DoubleRatchet

theorem PreKeys.missing_of_le {s : Stores} (h : 10 ≤ s.preKeys.size) : missing s = 0 :=
  if_neg (Nat.not_lt.mpr h)

theorem PreKeys.missing_of_lt {s : Stores} (h : s.preKeys.size < 10) :
    missing s = 100 - s.preKeys.size :=
  if_pos h

namespace Stores

/-- There are fewer ids above those in use than one-time pre-keys are missing. -/
def LacksIds (s : Stores) : Prop :=
  ∃ max, s.preKeys.maxKey? = some max ∧ UInt32.size < max.toNat + 1 + PreKeys.missing s

variable {s : Stores}

/-- Behind the highest id of all nothing can be made, so it does not matter that
the next id is then one in use. -/
theorem lacksIds_iff (hfew : s.preKeys.size < 10) :
    s.LacksIds ↔ UInt32.size < Command.nextPreKeyId s + PreKeys.missing s := by
  have hmissing := PreKeys.missing_of_lt hfew
  have hsize : UInt32.size = 4294967296 := rfl
  rw [LacksIds, Command.nextPreKeyId]
  cases s.preKeys.maxKey? with
  | none =>
    simp only [reduceCtorEq, false_and, exists_false, false_iff]
    omega
  | some max =>
    have hmax : max.toNat < UInt32.size := max.toNat_lt
    simp only [Option.some.injEq, exists_eq_left']
    omega

/-- The next id is above all that are in use. -/
theorem lt_nextPreKeyId (hfew : s.preKeys.size < 10) (h : ¬ s.LacksIds) {id : UInt32}
    {r : PreKeyRecord} (hr : s.preKeys.get? id = some r) : id.toNat < Command.nextPreKeyId s := by
  have hmissing := PreKeys.missing_of_lt hfew
  rw [Command.nextPreKeyId]
  cases hmax : s.preKeys.maxKey? with
  | none =>
    rw [Table.get?_of_maxKey?_none hmax] at hr
    cases hr
  | some max =>
    have hroom : max.toNat + 1 + PreKeys.missing s ≤ UInt32.size :=
      Nat.not_lt.mp fun hlt => h ⟨max, hmax, hlt⟩
    have hle : id.toNat ≤ max.toNat := UInt32.le_iff_toNat_le.mp (Table.le_maxKey? hmax hr)
    dsimp only
    omega

variable [Suite]

/-- The pre-keys that are missing, made under the next ids. -/
def replenishment (s : Stores) (e : Entropy) : List PreKeyRecord × Entropy :=
  PreKeys.batch (Command.nextPreKeyId s) (PreKeys.missing s) e

/-- The supply is full again. What was there is as before, and what is new has
ids above all of it. -/
structure Replenished (s t : Stores) : Prop where
  size : t.preKeys.size = 100
  kept : ∀ id r, s.preKeys.get? id = some r → t.preKeys.get? id = some r
  made : ∀ id r, t.preKeys.get? id = some r → s.preKeys.get? id = some r ∨
    r.id = id ∧ r.keyPair.Genuine ∧ ∀ old r', s.preKeys.get? old = some r' → old < id
  rest : t = { s with preKeys := t.preKeys }

/-- New ids are above all old ones. -/
theorem lt_of_mem_replenishment (hfew : s.preKeys.size < 10) (h : ¬ s.LacksIds) {e : Entropy}
    {r : PreKeyRecord} (hr : r ∈ (s.replenishment e).1) {old : UInt32} {r' : PreKeyRecord}
    (hold : s.preKeys.get? old = some r') :
    old < r.id := by
  have hid : r.id ∈ PreKeys.idsFrom (Command.nextPreKeyId s) (PreKeys.missing s) := by
    rw [← PreKeys.ids_batch _ _ e]
    exact List.mem_map_of_mem hr
  exact UInt32.lt_iff_toNat_lt.mpr
    (Nat.lt_of_lt_of_le (lt_nextPreKeyId hfew h hold) (PreKeys.mem_idsFrom.mp hid).1)

theorem length_replenishment (hfew : s.preKeys.size < 10) (h : ¬ s.LacksIds) (e : Entropy) :
    (s.replenishment e).1.length = PreKeys.missing s := by
  have hroom := (lacksIds_iff hfew).not.mp h
  rw [replenishment, PreKeys.length_batch]
  omega

theorem replenished_stock (hfew : s.preKeys.size < 10) (h : ¬ s.LacksIds) (e : Entropy) :
    s.Replenished (s.stock (s.replenishment e).1) := by
  have hids : ((s.replenishment e).1.map (·.id)).Nodup := PreKeys.nodup_ids_batch ..
  have hnew : ∀ r ∈ (s.replenishment e).1, s.preKeys.get? r.id = none := by
    intro r hr
    cases hold : s.preKeys.get? r.id with
    | none => rfl
    | some r' => exact absurd (lt_of_mem_replenishment hfew h hr hold) (UInt32.lt_irrefl _)
  refine ⟨?_, fun id r hr => get?_stock_of_new hnew hr, fun id r hr => ?_, stock_eq ..⟩
  · rw [size_stock hids hnew, length_replenishment hfew h, PreKeys.missing_of_lt hfew]
    omega
  · rcases mem_of_get?_stock hr with ⟨hmade, rfl⟩ | hbefore
    · exact .inr ⟨rfl, PreKeys.genuine_batch hmade,
        fun old r' hold => lt_of_mem_replenishment hfew h hmade hold⟩
    · exact .inl hbefore

/-- All are still under their own ids. -/
theorem Replenished.own {t : Stores} (h : s.Replenished t)
    (hown : ∀ id r, s.preKeys.get? id = some r → r.id = id) :
    ∀ id r, t.preKeys.get? id = some r → r.id = id := by
  intro id r hr
  rcases h.made id r hr with hbefore | ⟨hid, -⟩
  · exact hown id r hbefore
  · exact hid

end Stores

/-- All one-time pre-keys of stores, in the order of their ids. -/
structure Stores.Listed (s : Stores) (keys : List PublishedPreKey) : Prop where
  ascending : keys.Pairwise fun a b => a.id < b.id
  all : ∀ k, k ∈ keys ↔ ∃ r, s.preKeys.get? k.id = some r ∧ k.key = r.keyPair.publicKey.wire.toList

theorem Stores.listed_values {s : Stores} (hown : ∀ id r, s.preKeys.get? id = some r → r.id = id) :
    s.Listed (s.preKeys.values.map PreKeys.publish) := by
  constructor
  · rw [Table.values, List.map_map, List.pairwise_map]
    refine s.preKeys.sorted.imp_of_mem fun {a b} ha hb hlt => ?_
    have hida : a.2.id = a.1 := hown a.1 a.2 (Table.mem_entries.mp ha)
    have hidb : b.2.id = b.1 := hown b.1 b.2 (Table.mem_entries.mp hb)
    change a.2.id < b.2.id
    rw [hida, hidb]
    exact Std.compare_eq_lt.mp hlt
  · intro k
    constructor
    · intro hk
      obtain ⟨r, hr, rfl⟩ := List.mem_map.mp hk
      obtain ⟨id, hid⟩ := Table.mem_values.mp hr
      have hpublished : (PreKeys.publish r).id = id := hown id r hid
      exact ⟨r, by rw [hpublished, hid], rfl⟩
    · rintro ⟨r, hr, hkey⟩
      refine List.mem_map.mpr ⟨r, Table.mem_values.mpr ⟨k.id, hr⟩, ?_⟩
      rw [PreKeys.publish, hown k.id r hr, ← hkey]

namespace Command

variable {file password : String} {w w' : Workspace} {s : Stores}

/-- To load stores is to open what is in the file. -/
theorem load_ok : outcome (load file password) w = (.ok s, w') ↔
    w' = w ∧ ∃ bs, w.files.read? file = some bs ∧ Snapshot.open? bs password = .ok s := by
  rw [load, outcome_bind, outcome_get]
  dsimp only
  cases w.files.read? file with
  | none => simp
  | some bs =>
    simp only [outcome_ofExcept, Prod.mk.injEq, mapError_ok, Option.some.injEq, exists_eq_left']
    exact ⟨fun h => ⟨h.2.symm, h.1⟩, fun h => ⟨h.2, h.1.symm⟩⟩

/-- What was saved is what is loaded. -/
theorem load_of_save (h : outcome (save file password s) w = (.ok (), w')) :
    outcome (load file password) w' = (.ok s, w') := by
  obtain ⟨bs, hread, hopens⟩ := opens_of_save h
  exact load_ok.mpr ⟨rfl, bs, hread, hopens.whole⟩

variable [Suite]

theorem outcome_bundle_many (hopens : outcome (load file password) w = (.ok s, w))
    (hmany : 10 ≤ s.preKeys.size) (deviceId : UInt32) :
    outcome (bundle file password deviceId true) w =
      ((PreKeys.currentBundle s deviceId).mapError .session, w) := by
  rw [bundle, outcome_bind_of_ok hopens]
  simp only [PreKeys.missing_of_le hmany, if_true, outcome_ofExcept]

theorem outcome_bundle_few (hopens : outcome (load file password) w = (.ok s, w))
    (hfew : s.preKeys.size < 10) (deviceId : UInt32) :
    outcome (bundle file password deviceId true) w =
      match outcome (PreKeys.generate (nextPreKeyId s) (PreKeys.missing s)) ⟨s, w.entropy⟩ with
      | (.error fault, d) => (.error (.session fault), { w with entropy := d.entropy })
      | (.ok _, d) =>
        match outcome (save file password d.stores) { w with entropy := d.entropy } with
        | (.error fault, w') => (.error fault, w')
        | (.ok _, w') => ((PreKeys.currentBundle d.stores deviceId).mapError .session, w') := by
  have hmissing : PreKeys.missing s ≠ 0 := by
    rw [PreKeys.missing_of_lt hfew]
    omega
  rw [bundle, outcome_bind_of_ok hopens]
  simp only [if_true, if_neg hmissing]
  rw [outcome_bind, outcome_onStores]
  rcases outcome (PreKeys.generate (nextPreKeyId s) (PreKeys.missing s)) ⟨s, w.entropy⟩ with
    ⟨fault | keys, d⟩
  · rfl
  · dsimp only
    rw [outcome_bind]
    rcases outcome (save file password d.stores) _ with ⟨fault | _, w'⟩ <;> rfl

/-- For want of ids nothing is saved. -/
theorem outcome_bundle_lacksIds (hopens : outcome (load file password) w = (.ok s, w))
    (hfew : s.preKeys.size < 10) (hlacks : s.LacksIds) (deviceId : UInt32) :
    outcome (bundle file password deviceId true) w =
      (.error (.session (.session (.invalidState .preKeyIdsExhausted))),
        { w with entropy := (s.replenishment w.entropy).2 }) := by
  have hshort := (Stores.lacksIds_iff hfew).mp hlacks
  have hmissing := PreKeys.missing_of_lt hfew
  rw [outcome_bundle_few hopens hfew, PreKeys.outcome_generate, if_neg (by omega),
    Stores.replenishment]

/-- With enough of them the full supply is saved before the bundle is put together. -/
theorem outcome_bundle_full (hopens : outcome (load file password) w = (.ok s, w))
    (hfew : s.preKeys.size < 10) (henough : ¬ s.LacksIds) (deviceId : UInt32) :
    outcome (bundle file password deviceId true) w =
      match outcome (save file password (s.stock (s.replenishment w.entropy).1))
        { w with entropy := (s.replenishment w.entropy).2 } with
      | (.error fault, w') => (.error fault, w')
      | (.ok _, w') =>
        ((PreKeys.currentBundle (s.stock (s.replenishment w.entropy).1) deviceId).mapError .session,
          w') := by
  have hroom := (Stores.lacksIds_iff hfew).not.mp henough
  rw [outcome_bundle_few hopens hfew, PreKeys.outcome_generate, if_pos (.inr (Nat.not_lt.mp hroom)),
    Stores.replenishment]

end Command

/-- A bundle lists all one-time pre-keys of the stores that it is put together from. -/
theorem listed_of_currentBundle {s : Stores} {deviceId : UInt32} {b : PublishedBundle}
    (hown : ∀ id r, s.preKeys.get? id = some r → r.id = id)
    (hb : (PreKeys.currentBundle s deviceId).mapError CommandFault.session = .ok b) :
    s.Listed b.preKeys := by
  obtain ⟨_, _, _, rfl⟩ := PreKeys.currentBundle_ok (mapError_ok.mp hb)
  exact Stores.listed_values hown

/-- A store file that opens is asked for its bundle, with replenishing. If ten or
more one-time pre-keys are left, nothing is changed and the bundle lists these.
If fewer are left, the supply is full again in the file when the bundle is given,
and the bundle lists all of it. If too few ids are left above those in use, the
command fails and no file is changed. -/
theorem bundle_replenishes [Suite] {file password : String} {w : Workspace} {s : Stores}
    (opens : outcome (Command.load file password) w = (.ok s, w))
    (own : ∀ id r, s.preKeys.get? id = some r → r.id = id) (deviceId : UInt32) :
    let done := outcome (Command.bundle file password deviceId true) w
    let full := s.stock (s.replenishment w.entropy).1
    (10 ≤ s.preKeys.size → done.2 = w ∧ (∀ b, done.1 = .ok b → s.Listed b.preKeys) ∧
      (s.latestSignedPreKey?.isSome = true → ∃ b, done.1 = .ok b)) ∧
    (s.preKeys.size < 10 → ¬ s.LacksIds → s.Replenished full ∧
      (∀ b, done.1 = .ok b →
        outcome (Command.load file password) done.2 = (.ok full, done.2) ∧ full.Listed b.preKeys) ∧
      (s.latestSignedPreKey?.isSome = true → Files.Replaceable file → full.Fits →
        ∃ b, done.1 = .ok b)) ∧
    (s.preKeys.size < 10 → s.LacksIds →
      done.1 = .error (.session (.session (.invalidState .preKeyIdsExhausted))) ∧
      done.2.files = w.files) := by
  intro done full
  refine ⟨fun hmany => ?_, fun hfew henough => ?_, fun hfew hlacks => ?_⟩
  · have hdone : done = _ := Command.outcome_bundle_many opens hmany deviceId
    rw [hdone]
    refine ⟨rfl, fun b hb => listed_of_currentBundle own hb, fun hsigned => ?_⟩
    obtain ⟨b, hb⟩ := PreKeys.exists_currentBundle hsigned deviceId
    exact ⟨b, mapError_ok.mpr hb⟩
  · have hdone : done = _ := Command.outcome_bundle_full opens hfew henough deviceId
    have hfull : s.Replenished full := Stores.replenished_stock hfew henough w.entropy
    refine ⟨hfull, fun b hb => ?_, fun hsigned hpath hfits => ?_⟩
    · -- The bundle is put together from what was saved, so it lists what is then loaded.
      rw [hdone] at hb ⊢
      generalize hsave : outcome (Command.save file password full) _ = saved at hb ⊢
      rcases saved with ⟨fault | _, w'⟩
      · cases hb
      · exact ⟨Command.load_of_save hsave, listed_of_currentBundle (hfull.own own) hb⟩
    · obtain ⟨w', hsave, -⟩ :=
        Command.save_ok hpath password hfits { w with entropy := (s.replenishment w.entropy).2 }
      have hkept : full.latestSignedPreKey?.isSome = true := by
        rw [Stores.latestSignedPreKey?_congr (s := s) (by rw [hfull.rest])]
        exact hsigned
      obtain ⟨b, hb⟩ := PreKeys.exists_currentBundle hkept deviceId
      rw [hdone, hsave]
      exact ⟨b, mapError_ok.mpr hb⟩
  · have hdone : done = _ := Command.outcome_bundle_lacksIds opens hfew hlacks deviceId
    rw [hdone]
    exact ⟨rfl, rfl⟩

/-- Two one-time pre-keys are left, and there are a hundred after it. -/
theorem bundle_replenishes_first :
    let := Small.suite
    ∃ w, outcome (Command.load "a" "") w = (.ok Small.first, w) ∧
      Small.first.preKeys.size = 2 ∧ ∃ b t,
      (outcome (Command.bundle "a" "" 1 true) w).1 = .ok b ∧
      outcome (Command.load "a" "") (outcome (Command.bundle "a" "" 1 true) w).2 =
        (.ok t, (outcome (Command.bundle "a" "" 1 true) w).2) ∧ t.preKeys.size = 100 ∧
          t.Listed b.preKeys := by
  intro
  have hpath : Files.Replaceable "a" := by
    unfold Files.Replaceable
    decide +kernel
  have hfits : Small.first.Fits ∧
      (Small.first.stock (Small.first.replenishment (Small.entropy 7)).1).Fits := by
    unfold Stores.Fits
    decide +kernel
  have hfirst : Small.first.preKeys.size = 2 ∧ Small.first.preKeys.maxKey? = some 2 ∧
      Small.first.latestSignedPreKey?.isSome = true := by decide +kernel
  obtain ⟨hsize, hmax, hsigned⟩ := hfirst
  have hgenuine : Small.first.Genuine :=
    PreKeys.genuine_generateBundle (genuine_create (genuine_keyPair (Small.entropy 5)) _) 1 1 2 0
  have hfew : Small.first.preKeys.size < 10 := Nat.lt_of_le_of_lt (Nat.le_of_eq hsize) (by decide)
  have henough : ¬ Small.first.LacksIds := by
    rintro ⟨max, hmax', hlacks⟩
    obtain rfl := Option.some_inj.mp (hmax.symm.trans hmax')
    have hmissing := PreKeys.missing_of_lt hfew
    have htwo : (2 : UInt32).toNat = 2 := rfl
    have hids : UInt32.size = 4294967296 := rfl
    omega
  obtain ⟨w, hsave, -⟩ := Command.save_ok hpath "" hfits.1 ⟨{}, Small.entropy 5⟩
  have hopens : outcome (Command.load "a" "") { w with entropy := Small.entropy 7 } =
      (.ok Small.first, { w with entropy := Small.entropy 7 }) := by
    obtain ⟨-, hfile⟩ := Command.load_ok.mp (Command.load_of_save hsave)
    exact Command.load_ok.mpr ⟨rfl, hfile⟩
  obtain ⟨-, hfull, -⟩ := bundle_replenishes hopens (fun id r hr => (hgenuine.preKeys id r hr).1) 1
  obtain ⟨hreplenished, hgiven, hgives⟩ := hfull hfew henough
  obtain ⟨b, hb⟩ := hgives hsigned hpath hfits.2
  exact ⟨_, hopens, hsize, b, _, hb, (hgiven b hb).1, hreplenished.size, (hgiven b hb).2⟩

end DoubleRatchet
