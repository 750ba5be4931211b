import DoubleRatchet.Proofs.Engine.PreKeys

/-!
# Rotation of the signed pre-key

Every call for new pre-keys makes a signed one under an id above all others, and
none is ever lost. But the current bundle goes by the clock: it has the signed
pre-key with the greatest time, and that is the one made last unless the clock
was ahead of the last call before. Main statement: `newest_current_iff`.
-/
namespace DoubleRatchet

namespace Stores

/-- None of those gone through is later than what is left. -/
theorem timestamp_le_foldl_later {first r : SignedPreKeyRecord} {rs : List SignedPreKeyRecord}
    (h : r ∈ first :: rs) :
    r.timestamp ≤ (rs.foldl SignedPreKeyRecord.later first).timestamp := by
  induction rs generalizing first r with
  | nil =>
    rw [List.mem_singleton.mp h]
    exact UInt64.le_refl _
  | cons next rs ih =>
    have hfirst : first.timestamp ≤ (SignedPreKeyRecord.later first next).timestamp ∧
        next.timestamp ≤ (SignedPreKeyRecord.later first next).timestamp := by
      rw [SignedPreKeyRecord.later]
      split
      · next hlt => exact ⟨UInt64.le_refl _, UInt64.le_of_lt hlt⟩
      · next hle => exact ⟨UInt64.not_lt.mp hle, UInt64.le_refl _⟩
    have hkept : (SignedPreKeyRecord.later first next).timestamp ≤
        ((next :: rs).foldl SignedPreKeyRecord.later first).timestamp := ih List.mem_cons_self
    rcases List.mem_cons.mp h with rfl | h
    · exact UInt64.le_trans hfirst.1 hkept
    rcases List.mem_cons.mp h with rfl | h
    · exact UInt64.le_trans hfirst.2 hkept
    · exact ih (List.mem_cons_of_mem _ h)

variable {s : Stores} {r : SignedPreKeyRecord}

theorem timestamp_le_latest (h : s.latestSignedPreKey? = some r) {id : UInt32}
    {other : SignedPreKeyRecord} (hother : s.signedPreKeys.get? id = some other) :
    other.timestamp ≤ r.timestamp := by
  have hmem := Table.mem_values.mpr ⟨id, hother⟩
  rw [latestSignedPreKey?] at h
  split at h
  · cases h
  · next first rest hvalues =>
    rw [hvalues] at hmem
    rw [← Option.some_inj.mp h]
    exact timestamp_le_foldl_later hmem

theorem loadSignedPreKey_ok {id : UInt32} (h : s.signedPreKeys.get? id = some r) :
    s.loadSignedPreKey id = .ok r := by
  rw [loadSignedPreKey, h]

/-- Stores gain a signed pre-key under an id above all others. -/
structure Adds (s : Stores) (made : SignedPreKeyRecord) (t : Stores) : Prop where
  eq : t.signedPreKeys = s.signedPreKeys.insert made.id made
  above : ∀ id v, s.signedPreKeys.get? id = some v → id < made.id

namespace Adds

variable {t : Stores} {made : SignedPreKeyRecord}

theorem stored (h : s.Adds made t) : t.signedPreKeys.get? made.id = some made := by
  rw [h.eq, Table.get?_insert, if_pos rfl]

/-- None of the others gives way to it. -/
theorem kept (h : s.Adds made t) {id : UInt32} (hr : s.signedPreKeys.get? id = some r) :
    t.signedPreKeys.get? id = some r := by
  rw [h.eq, Table.get?_insert, if_neg (UInt32.ne_of_lt (h.above id r hr)), hr]

theorem origin (h : s.Adds made t) {id : UInt32} (hr : t.signedPreKeys.get? id = some r) :
    s.signedPreKeys.get? id = some r ∨ made = r := by
  rw [h.eq, Table.get?_insert] at hr
  split at hr
  · exact .inr (Option.some_inj.mp hr)
  · exact .inl hr

/-- It is compared last with the others. -/
theorem latest (h : s.Adds made t) :
    t.latestSignedPreKey? = some (match s.latestSignedPreKey? with
      | none => made
      | some before => SignedPreKeyRecord.later before made) := by
  have hvalues : t.signedPreKeys.values = s.signedPreKeys.values ++ [made] := by
    rw [h.eq]
    exact Table.values_insert_above fun other v hv => Std.compare_eq_lt.mpr (h.above other v hv)
  rw [latestSignedPreKey?, hvalues, latestSignedPreKey?]
  cases s.signedPreKeys.values with
  | nil => rfl
  | cons first rest =>
    rw [List.cons_append]
    exact congrArg some (List.foldl_concat ..)

/-- It is the latest one if no other has a greater time. -/
theorem latest_iff (h : s.Adds made t) : t.latestSignedPreKey? = some made ↔
    ∀ id v, s.signedPreKeys.get? id = some v → v.timestamp ≤ made.timestamp := by
  constructor
  · intro hlatest id v hv
    exact timestamp_le_latest hlatest (h.kept hv)
  · intro hle
    rw [h.latest]
    cases hbefore : s.latestSignedPreKey? with
    | none => rfl
    | some before =>
      obtain ⟨id, hid⟩ := get?_of_latestSignedPreKey? hbefore
      exact congrArg some (if_neg (UInt64.not_lt.mpr (hle id before hid)))

end Adds

end Stores

namespace PreKeys

/-- The next id is above all that are in use. -/
theorem lt_nextSignedId {s : Stores} {id other : UInt32} {r : SignedPreKeyRecord}
    (h : nextSignedId s = .ok id) (hother : s.signedPreKeys.get? other = some r) : other < id := by
  rw [nextSignedId] at h
  split at h
  · next hnone =>
    rw [Table.get?_of_maxKey?_none hnone] at hother
    cases hother
  · next max hmax =>
    split at h
    · cases h
    · next hroom =>
      obtain rfl := Except.ok.inj h
      have hnext : (max + 1).toNat = max.toNat + 1 := by
        have hlt : max.toNat < UInt32.size := max.toNat_lt
        have hone : (1 : UInt32).toNat = 1 := rfl
        rw [UInt32.toNat_add, hone]
        exact Nat.mod_eq_of_lt (show max.toNat + 1 < UInt32.size by omega)
      rw [UInt32.lt_iff_toNat_lt, hnext]
      exact Nat.lt_succ_of_le (UInt32.le_iff_toNat_le.mp (Table.le_maxKey? hmax hother))

end PreKeys

/-- A bundle has a signed pre-key, under its id and with its signature. -/
structure PublishedBundle.Carries (p : PublishedBundle) (r : SignedPreKeyRecord) : Prop where
  id : p.signedPreKeyId = r.id
  key : p.signedPreKey = r.keyPair.publicKey.wire.toList
  signature : p.signature = r.signature

theorem PublishedBundle.carries_bundle (s : Stores) (deviceId : UInt32) (r : SignedPreKeyRecord)
    (keys : List PublishedPreKey) : (PreKeys.bundle s deviceId r keys).Carries r :=
  ⟨rfl, rfl, rfl⟩

/-- A call for new pre-keys. -/
structure PreKeyRequest where
  deviceId : UInt32
  start : UInt32
  count : Nat
  now : UInt64

variable [Suite]

def PreKeyRequest.issue (q : PreKeyRequest) : Action SessionError PublishedBundle :=
  PreKeys.generateBundle q.deviceId q.start q.count q.now

/-- A call adds one signed pre-key, with its time. -/
theorem issue_adds {q : PreKeyRequest} {d d' : Device} {p : PublishedBundle}
    (h : outcome q.issue d = (.ok p, d')) :
    ∃ made, p.Carries made ∧ made.timestamp = q.now ∧ d.stores.Adds made d'.stores := by
  obtain ⟨keys, d₁, id, hkeys, hid, rfl, rfl⟩ := PreKeys.generateBundle_ok.mp h
  refine ⟨_, PublishedBundle.carries_bundle .., rfl, ?_,
    fun other r hr => PreKeys.lt_nextSignedId hid hr⟩
  rw [PreKeys.stores_generate hkeys]
  rfl

/-- Calls that have succeeded one after the other, the last one at the end. -/
inductive Issued : Device → List (PreKeyRequest × PublishedBundle) → Device → Prop
  | none (d : Device) : Issued d [] d
  | next {d d₁ d' : Device} {calls : List (PreKeyRequest × PublishedBundle)} {q : PreKeyRequest}
      {p : PublishedBundle}
      (earlier : Issued d calls d₁) (made : outcome q.issue d₁ = (.ok p, d')) :
      Issued d (calls ++ [(q, p)]) d'

/-- The signed pre-keys after a number of calls: those before them, and one of each call. -/
structure Rotated (s : Stores) (calls : List (PreKeyRequest × PublishedBundle))
    (t : Stores) : Prop where
  kept : ∀ id r, s.signedPreKeys.get? id = some r → t.signedPreKeys.get? id = some r
  made : ∀ c ∈ calls, ∃ r, c.2.Carries r ∧ r.timestamp = c.1.now ∧
      t.signedPreKeys.get? r.id = some r
  origin : ∀ id r, t.signedPreKeys.get? id = some r →
    s.signedPreKeys.get? id = some r ∨ ∃ c ∈ calls, r.timestamp = c.1.now

theorem Issued.rotated {d d' : Device} {calls : List (PreKeyRequest × PublishedBundle)}
    (h : Issued d calls d') :
    Rotated d.stores calls d'.stores := by
  induction h with
  | none => exact ⟨fun _ _ hr => hr, fun c hc => absurd hc List.not_mem_nil, fun _ _ hr => .inl hr⟩
  | @next d₁ d' calls q p _ last ih =>
    -- Its id is above those of the calls before, so that it replaces none of theirs.
    obtain ⟨newest, hcarries, htime, hadds⟩ := issue_adds last
    refine ⟨fun id r hr => hadds.kept (ih.kept id r hr), fun c hc => ?_, fun id r hr => ?_⟩
    · rcases List.mem_append.mp hc with hc | hc
      · obtain ⟨r, hcarried, hat, hr⟩ := ih.made c hc
        exact ⟨r, hcarried, hat, hadds.kept hr⟩
      · obtain rfl := List.mem_singleton.mp hc
        exact ⟨newest, hcarries, htime, hadds.stored⟩
    · rcases hadds.origin hr with hr | rfl
      · rcases ih.origin id r hr with hbefore | ⟨c, hc, hat⟩
        · exact .inl hbefore
        · exact .inr ⟨c, List.mem_append_left _ hc, hat⟩
      · exact .inr ⟨(q, p), List.mem_append_right _ List.mem_cons_self, htime⟩

/-- What a party publishes after a number of calls that have succeeded, the last
one `q`. The signed pre-key of the last call has an id above all others, and all
of them can still be loaded. It is the one in the current bundle if and only if
no call before, and no signed pre-key that was there first, has a greater time. -/
theorem newest_current_iff {d d₁ d' : Device} {calls : List (PreKeyRequest × PublishedBundle)}
    {q : PreKeyRequest} {p : PublishedBundle} (earlier : Issued d calls d₁)
    (last : outcome q.issue d₁ = (.ok p, d')) :
    ∃ newest current,
      (p.Carries newest ∧ newest.timestamp = q.now ∧
        d'.stores.loadSignedPreKey newest.id = .ok newest) ∧
      (∀ c ∈ calls, ∃ r, c.2.Carries r ∧ r.timestamp = c.1.now ∧ r.id < newest.id ∧
        d'.stores.loadSignedPreKey r.id = .ok r) ∧
      (∀ id r, d.stores.signedPreKeys.get? id = some r →
        id < newest.id ∧ d'.stores.loadSignedPreKey id = .ok r) ∧
      (∀ deviceId, PreKeys.currentBundle d'.stores deviceId =
        .ok (PreKeys.bundle d'.stores deviceId current
          (d'.stores.preKeys.values.map PreKeys.publish))) ∧
      (current = newest ↔ (∀ c ∈ calls, c.1.now ≤ q.now) ∧
        ∀ id r, d.stores.signedPreKeys.get? id = some r → r.timestamp ≤ q.now) := by
  have hbefore := earlier.rotated
  obtain ⟨newest, hcarries, htime, hadds⟩ := issue_adds last
  obtain ⟨current, hcurrent⟩ : ∃ current, d'.stores.latestSignedPreKey? = some current :=
    ⟨_, hadds.latest⟩
  refine ⟨newest, current,
    ⟨hcarries, htime, Stores.loadSignedPreKey_ok hadds.stored⟩, fun c hc => ?_,
    fun id r hr => ?_, fun deviceId => ?_, ?_⟩
  · obtain ⟨r, hcarried, hat, hr⟩ := hbefore.made c hc
    exact ⟨r, hcarried, hat, hadds.above r.id r hr, Stores.loadSignedPreKey_ok (hadds.kept hr)⟩
  · have hstill := hbefore.kept id r hr
    exact ⟨hadds.above id r hstill, Stores.loadSignedPreKey_ok (hadds.kept hstill)⟩
  · rw [PreKeys.currentBundle, hcurrent]
  · have hlatest := hadds.latest_iff
    rw [hcurrent, Option.some_inj, htime] at hlatest
    rw [hlatest]
    constructor
    · intro hle
      refine ⟨fun c hc => ?_, fun id r hr => hle id r (hbefore.kept id r hr)⟩
      obtain ⟨r, -, hat, hr⟩ := hbefore.made c hc
      exact hat ▸ hle r.id r hr
    · rintro ⟨hcalls, hfirst⟩ id r hr
      rcases hbefore.origin id r hr with hr | ⟨c, hc, hat⟩
      · exact hfirst id r hr
      · exact hat ▸ hcalls c hc

namespace Small

/-- A first call, and another one after the clock was set back by a second. -/
def before : PreKeyRequest := ⟨1, 1, 1, 2000⟩

def after : PreKeyRequest := ⟨1, 2, 1, 1000⟩

/-- What the calls give, and the current bundle after them. -/
def setBack : Bool × Except SessionError PublishedBundle × Except SessionError PublishedBundle :=
  let first := outcome (@PreKeyRequest.issue suite before) (device 101)
  let second := outcome (@PreKeyRequest.issue suite after) first.2
  (first.1.isOk, second.1, PreKeys.currentBundle second.2.stores 1)

end Small

omit [Suite] in
/-- The second call publishes the signed pre-key 2, and the current bundle still has 1. -/
theorem newest_current_iff_setBack :
    let := Small.suite
    ∃ d₁ d' p₁ p₂ newest current, Issued (Small.device 101) [(Small.before, p₁)] d₁ ∧
      outcome Small.after.issue d₁ = (.ok p₂, d') ∧ p₂.Carries newest ∧ newest.id = 2 ∧
      PreKeys.currentBundle d'.stores 1 =
        .ok (PreKeys.bundle d'.stores 1 current (d'.stores.preKeys.values.map PreKeys.publish)) ∧
      current.id = 1 ∧ current ≠ newest := by
  intro
  have hruns : Small.setBack.1 = true ∧ Small.setBack.2.1.map (·.signedPreKeyId) = .ok 2 ∧
      Small.setBack.2.2.map (·.signedPreKeyId) = .ok 1 := by decide +kernel
  obtain ⟨hissued, hsecond, hthen⟩ := hruns
  have hissued : (outcome Small.before.issue (Small.device 101)).1.isOk = true := hissued
  obtain ⟨p₁, d₁, hfirst⟩ := outcome_of_isOk hissued
  have hd₁ : (outcome Small.before.issue (Small.device 101)).2 = d₁ := by rw [hfirst]
  simp only [Small.setBack, hd₁] at hsecond hthen
  rcases hlast : outcome Small.after.issue d₁ with ⟨fault | p₂, d'⟩ <;> rw [hlast] at hsecond hthen
  · cases hsecond
  have hearlier : Issued (Small.device 101) [(Small.before, p₁)] d₁ := .next (.none _) hfirst
  obtain ⟨newest, current, ⟨hcarries, -⟩, -, -, hcurrent, hiff⟩ := newest_current_iff hearlier hlast
  rw [hcurrent 1] at hthen
  refine ⟨d₁, d', p₁, p₂, newest, current, hearlier, hlast, hcarries,
    hcarries.id.symm.trans (Except.ok.inj hsecond), hcurrent 1,
    Except.ok.inj hthen, fun hsame => ?_⟩
  have htimes : Small.before.now ≤ Small.after.now := (hiff.mp hsame).1 _ List.mem_cons_self
  exact absurd htimes (by decide)

end DoubleRatchet
