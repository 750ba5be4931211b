import DoubleRatchet.Proofs.Engine.Generation

/-!
# What a party publishes

The keys in a published bundle are those of pre-keys that the party stores
under the ids in the bundle, so that it can answer whoever starts a session
from it. All pairs that a device comes to store are genuine.
-/
namespace DoubleRatchet

theorem later_mem {r : SignedPreKeyRecord} {rs : List SignedPreKeyRecord} :
    rs.foldl Stores.SignedPreKeyRecord.later r ∈ r :: rs := by
  induction rs generalizing r with
  | nil => exact List.mem_cons_self
  | cons next rs ih =>
    rcases List.mem_cons.mp (ih (r := Stores.SignedPreKeyRecord.later r next)) with heq | hmem
    · rw [List.foldl_cons, heq, Stores.SignedPreKeyRecord.later]
      split
      · exact List.mem_cons_self
      · exact List.mem_cons_of_mem _ List.mem_cons_self
    · exact List.mem_cons_of_mem _ (List.mem_cons_of_mem _ hmem)

theorem Stores.latestSignedPreKey?_congr {s t : Stores} (h : t.signedPreKeys = s.signedPreKeys) :
    t.latestSignedPreKey? = s.latestSignedPreKey? := by
  rw [latestSignedPreKey?, h, latestSignedPreKey?]

theorem Stores.latestSignedPreKey?_isSome {s : Stores} {id : UInt32} {r : SignedPreKeyRecord}
    (h : s.signedPreKeys.get? id = some r) : s.latestSignedPreKey?.isSome = true := by
  rw [latestSignedPreKey?]
  split
  · next hvalues =>
    rw [Table.values, List.map_eq_nil_iff] at hvalues
    rw [Table.get?, hvalues] at h
    cases h
  · rfl

/-- The latest signed pre-key is one of those stored. -/
theorem Stores.get?_of_latestSignedPreKey? {s : Stores} {r : SignedPreKeyRecord}
    (h : s.latestSignedPreKey? = some r) :
    ∃ id, s.signedPreKeys.get? id = some r := by
  rw [latestSignedPreKey?] at h
  split at h
  · cases h
  · next first rest hvalues =>
    have hmem : r ∈ s.signedPreKeys.values := by
      rw [hvalues, ← Option.some_inj.mp h]
      exact later_mem
    exact Table.mem_values.mp hmem

theorem PreKeys.currentBundle_ok {s : Stores} {deviceId : UInt32} {p : PublishedBundle}
    (h : currentBundle s deviceId = .ok p) :
    ∃ id signed, s.signedPreKeys.get? id = some signed ∧
      p = bundle s deviceId signed (s.preKeys.values.map publish) := by
  rw [currentBundle] at h
  split at h
  · next signed hsigned =>
    obtain ⟨id, hid⟩ := Stores.get?_of_latestSignedPreKey? hsigned
    exact ⟨id, signed, hid, (Except.ok.inj h).symm⟩
  · cases h

theorem PreKeys.exists_currentBundle {s : Stores} (h : s.latestSignedPreKey?.isSome = true)
    (deviceId : UInt32) :
    ∃ p, currentBundle s deviceId = .ok p := by
  obtain ⟨signed, hsigned⟩ := Option.isSome_iff_exists.mp h
  exact ⟨_, by rw [currentBundle, hsigned]⟩

variable [Suite]

/-- All pairs of a store are genuine, and pre-keys are stored under their own ids. -/
structure Stores.Genuine (s : Stores) : Prop where
  identity : s.identity.keyPair.Genuine
  preKeys : ∀ id r, s.preKeys.get? id = some r → r.id = id ∧ r.keyPair.Genuine
  signedPreKeys : ∀ id r, s.signedPreKeys.get? id = some r → r.id = id ∧ r.keyPair.Genuine

namespace Stores.Genuine

variable {s : Stores}

theorem storePreKey (h : s.Genuine) {r : PreKeyRecord} (hr : r.keyPair.Genuine) :
    (s.storePreKey r.id r).Genuine := by
  refine ⟨h.identity, fun id r' hr' => ?_, h.signedPreKeys⟩
  rw [Stores.storePreKey, Table.get?_insert] at hr'
  split at hr'
  · next hid =>
    obtain rfl := Option.some_inj.mp hr'
    exact ⟨hid.symm, hr⟩
  · exact h.preKeys id r' hr'

theorem stock (h : s.Genuine) {rs : List PreKeyRecord} (hrs : ∀ r ∈ rs, r.keyPair.Genuine) :
    (s.stock rs).Genuine := by
  induction rs generalizing s with
  | nil => exact h
  | cons r rs ih =>
    obtain ⟨hr, hrest⟩ := List.forall_mem_cons.mp hrs
    exact ih (h.storePreKey hr) hrest

theorem storeSignedPreKey (h : s.Genuine) {r : SignedPreKeyRecord} (hr : r.keyPair.Genuine) :
    (s.storeSignedPreKey r.id r).Genuine := by
  refine ⟨h.identity, h.preKeys, fun id r' hr' => ?_⟩
  rw [Stores.storeSignedPreKey, Table.get?_insert] at hr'
  split at hr'
  · next hid =>
    obtain rfl := Option.some_inj.mp hr'
    exact ⟨hid.symm, hr⟩
  · exact h.signedPreKeys id r' hr'

theorem removePreKey (h : s.Genuine) (used : UInt32) : (s.removePreKey used).Genuine := by
  refine ⟨h.identity, fun id r hr => ?_, h.signedPreKeys⟩
  rw [Stores.removePreKey, Table.get?_erase] at hr
  split at hr
  · cases hr
  · exact h.preKeys id r hr

theorem committed (h : s.Genuine) (peer : Address) (identity : PublicKey) (r : Record) :
    (s.committed peer identity r).Genuine :=
  ⟨h.identity, h.preKeys, h.signedPreKeys⟩

theorem withoutUsed (h : s.Genuine) (used : Option UInt32) : (s.withoutUsed used).Genuine := by
  cases used with
  | none => exact h
  | some id => exact h.removePreKey id

end Stores.Genuine

namespace PreKeys

/-- Whatever comes of making pre-keys, the stores stay genuine. -/
theorem genuine_generate {d : Device} (h : d.stores.Genuine) (id count : Nat) :
    (outcome (generate id count) d).2.stores.Genuine := by
  rw [outcome_generate]
  exact h.stock fun r hr => genuine_batch hr

/-- Making a bundle adds its signed pre-key to those of the device, and leaves its
identity alone. -/
theorem generateBundle_adds {deviceId start : UInt32} {count : Nat} {now : UInt64} {d d' : Device}
    {p : PublishedBundle} (h : outcome (generateBundle deviceId start count now) d = (.ok p, d')) :
    ∃ id e keys, let signed := (generateSigned id d.stores.identity.keyPair now e).1
      d'.stores.identity = d.stores.identity ∧
      d'.stores.signedPreKeys = d.stores.signedPreKeys.insert id signed ∧
      p = bundle d'.stores deviceId signed keys ∧ ∀ k ∈ keys, ∃ r, k = publish r := by
  obtain ⟨keys, d₁, id, hkeys, -, rfl, rfl⟩ := generateBundle_ok.mp h
  refine ⟨id, d₁.entropy, keys, ?_, ?_, rfl,
    fun k hk => (stored_of_generate hkeys k hk).imp fun _ h => h.2⟩
  · rw [stores_generate hkeys]
    rfl
  · rw [stores_generate hkeys]
    rfl

/-- A bundle leaves a signed pre-key. -/
theorem latestSigned_of_generateBundle {deviceId start : UInt32} {count : Nat} {now : UInt64}
    {d d' : Device} {p : PublishedBundle}
    (h : outcome (generateBundle deviceId start count now) d = (.ok p, d')) :
    d'.stores.latestSignedPreKey?.isSome = true := by
  obtain ⟨keys, d₁, id, -, -, rfl, -⟩ := generateBundle_ok.mp h
  exact Stores.latestSignedPreKey?_isSome ((Table.get?_insert _ _ _ _).trans (if_pos rfl))

theorem genuine_generateBundle {d : Device} (h : d.stores.Genuine) (deviceId start : UInt32)
    (count : Nat) (now : UInt64) :
    (outcome (generateBundle deviceId start count now) d).2.stores.Genuine := by
  have hgenerate := genuine_generate h start.toNat count
  rw [outcome_generateBundle]
  generalize outcome (generate start.toNat count) d = made at hgenerate ⊢
  rcases made with ⟨fault | keys, d₁⟩
  · exact hgenerate
  · cases nextSignedId d.stores with
    | error fault => exact hgenerate
    | ok id => exact hgenerate.storeSignedPreKey (r := ⟨id, now, _, _⟩) (genuine_keyPair d₁.entropy)

end PreKeys

/-- An operation leaves the stores genuine. -/
theorem genuine_perform {c : Config} {d : Device} (h : d.stores.Genuine) (op : Operation) :
    (op.perform c d).stores.Genuine := by
  have hacts := acts_perform c d op
  generalize (op.perform c d).stores = s at hacts ⊢
  cases hacts with
  | same => exact h
  | made deviceId start count now => exact PreKeys.genuine_generateBundle h deviceId start count now
  | started => exact h.committed _ _ _
  | written => exact h.committed _ _ _
  | read => exact (h.committed _ _ _).withoutUsed _

theorem genuine_create {keyPair : KeyPair} (h : keyPair.Genuine) (registrationId : UInt32) :
    (Stores.create keyPair registrationId).Genuine := by
  refine ⟨h, fun id r hr => ?_, fun id r hr => ?_⟩
  · cases hr
  · cases hr

/-- A device with a genuine identity only ever stores genuine pairs. -/
theorem genuine_run (c : Config) {keyPair : KeyPair} (h : keyPair.Genuine) (registrationId : UInt32)
    (entropy : Entropy) (ops : List Operation) :
    ((Device.new keyPair registrationId entropy).run c ops).stores.Genuine := by
  exact Device.run_induction (P := fun d => d.stores.Genuine) (fun _ op hd => genuine_perform hd op)
    (genuine_create h registrationId) ops

/-- A device publishes a bundle, of new pre-keys or of those that it has. -/
inductive Published (d : Device) (p : PublishedBundle) : Device → Prop
  | generated {deviceId start : UInt32} {count : Nat} {now : UInt64} {d' : Device}
      (made : outcome (PreKeys.generateBundle deviceId start count now) d = (.ok p, d')) :
      Published d p d'
  | current (deviceId : UInt32)
      (made : PreKeys.currentBundle d.stores deviceId = .ok p) : Published d p d

/-- The keys of a bundle are those of a party and of pre-keys that it stores. -/
structure Stores.Offers (s : Stores) (b : Bundle) : Prop where
  identity : b.identityKey = s.identity.keyPair.publicKey
  signed : ∃ r, s.signedPreKeys.get? b.signedPreKeyId = some r ∧
      r.keyPair.publicKey = b.signedPreKey
  oneTime : ∀ k ∈ b.preKey, ∃ r, s.preKeys.get? k.1 = some r ∧ r.keyPair.publicKey = k.2

theorem Published.genuine {d d' : Device} {p : PublishedBundle} (h : Published d p d')
    (hd : d.stores.Genuine) :
    d'.stores.Genuine := by
  cases h with
  | current => exact hd
  | @generated deviceId start count now _ made =>
    have hgenuine := PreKeys.genuine_generateBundle hd deviceId start count now
    rw [made] at hgenuine
    exact hgenuine

/-- What is published is stored, each pre-key under its id. -/
theorem Published.stored {d d' : Device} {p : PublishedBundle} (h : Published d p d')
    (hd : d.stores.Genuine) :
    ∃ deviceId signed keys, p = PreKeys.bundle d'.stores deviceId signed keys ∧
      d'.stores.signedPreKeys.get? signed.id = some signed ∧
      ∀ k ∈ keys, ∃ r, d'.stores.preKeys.get? k.id = some r ∧ k = PreKeys.publish r := by
  cases h with
  | @generated deviceId start count now _ made =>
    obtain ⟨keys, d₁, id, hkeys, -, rfl, rfl⟩ := PreKeys.generateBundle_ok.mp made
    refine ⟨deviceId, _, keys, rfl, ?_, fun k hk => PreKeys.stored_of_generate hkeys k hk⟩
    exact (Table.get?_insert _ _ _ _).trans (if_pos rfl)
  | current deviceId made =>
    obtain ⟨id, signed, hid, rfl⟩ := PreKeys.currentBundle_ok made
    refine ⟨deviceId, signed, _, rfl, ?_, fun k hk => ?_⟩
    · rw [(hd.signedPreKeys id signed hid).1]
      exact hid
    · obtain ⟨r, hr, rfl⟩ := List.mem_map.mp hk
      obtain ⟨id, hid⟩ := Table.mem_values.mp hr
      have hown : (PreKeys.publish r).id = id := (hd.preKeys id r hid).1
      rw [hown]
      exact ⟨r, hid, rfl⟩

omit [Suite] in
theorem Bundle.mem_of_choose {keys : List PublishedPreKey} {preKeyId : Option UInt32}
    {chosen : Option PublishedPreKey} (h : Bundle.choose keys preKeyId = .ok chosen) :
    ∀ k ∈ chosen, k ∈ keys := by
  rintro k rfl
  cases preKeyId with
  | none => exact List.mem_of_head? (Except.ok.inj h)
  | some id =>
    rw [Bundle.choose] at h
    split at h
    · next found hfound =>
      cases h
      exact List.mem_of_find?_eq_some hfound
    · cases h

omit [Suite] in
/-- A key that is listed can be chosen, and none needs to be named. -/
theorem Bundle.exists_choose {keys : List PublishedPreKey} {preKeyId : Option UInt32}
    (h : ∀ id ∈ preKeyId, ∃ k ∈ keys, k.id = id) : ∃ chosen, choose keys preKeyId = .ok chosen := by
  cases preKeyId with
  | none => exact ⟨_, rfl⟩
  | some id =>
    obtain ⟨k, hk, rfl⟩ := h id rfl
    have hfound : (keys.find? (·.id = k.id)).isSome = true :=
      List.find?_isSome.mpr ⟨k, hk, decide_eq_true rfl⟩
    obtain ⟨found, hfound⟩ := Option.isSome_iff_exists.mp hfound
    exact ⟨some found, by rw [choose, hfound]⟩

omit [Suite] in
/-- What a party publishes can be read, with any of the keys that it lists. -/
theorem PreKeys.ofPublished_bundle (s : Stores) (deviceId : UInt32) (signed : SignedPreKeyRecord)
    {keys : List PublishedPreKey} (hkeys : ∀ k ∈ keys, ∃ r, k = publish r)
    {preKeyId : Option UInt32} (hlisted : ∀ id ∈ preKeyId, ∃ k ∈ keys, k.id = id) :
    ∃ preKey, Bundle.ofPublished (bundle s deviceId signed keys) preKeyId =
      .ok ⟨s.identity.registrationId, deviceId, preKey, signed.id, signed.keyPair.publicKey,
      signed.signature, s.identity.keyPair.publicKey⟩ := by
  obtain ⟨chosen, hchosen⟩ := Bundle.exists_choose hlisted
  have hread :
      ∃ preKey, (chosen.mapM fun k => return (k.id, ← (PublicKey.decode k.key).mapError .ofKey) :
      Except SessionError (Option (UInt32 × PublicKey))) = .ok preKey := by
    cases chosen with
    | none => exact ⟨none, rfl⟩
    | some k =>
      obtain ⟨r, rfl⟩ := hkeys k (Bundle.mem_of_choose hchosen k rfl)
      refine ⟨some (r.id, r.keyPair.publicKey), ?_⟩
      rw [Option.mapM_some, publish, PublicKey.decode_wire]
      rfl
  obtain ⟨preKey, hpreKey⟩ := hread
  refine ⟨preKey, ?_⟩
  unfold Bundle.ofPublished bundle
  simp only [PublicKey.decode_wire, bind_ok, mapError_ok, pure, Except.pure, Except.ok.injEq]
  exact ⟨_, rfl, _, rfl, chosen, hchosen, preKey, hpreKey, rfl⟩

/-- Whichever one-time key is taken from a published bundle, its party offers what is read. -/
theorem Published.offers {d d' : Device} {p : PublishedBundle} (h : Published d p d')
    (hd : d.stores.Genuine) {preKeyId : Option UInt32} {b : Bundle}
    (hb : Bundle.ofPublished p preKeyId = .ok b) : d'.stores.Offers b := by
  obtain ⟨deviceId, signed, keys, rfl, hsigned, hkeys⟩ := h.stored hd
  unfold Bundle.ofPublished PreKeys.bundle at hb
  simp only [PublicKey.decode_wire, bind_ok, mapError_ok, pure, Except.pure, Except.ok.injEq] at hb
  obtain ⟨_, rfl, _, rfl, chosen, hchosen, preKey, hpreKey, rfl⟩ := hb
  refine ⟨rfl, ⟨signed, hsigned, rfl⟩, fun k hk => ?_⟩
  have hmem := Bundle.mem_of_choose hchosen
  cases chosen with
  | none =>
    cases hpreKey
    cases hk
  | some key =>
    obtain ⟨r, hr, hpublish⟩ := hkeys key (hmem key rfl)
    have hdecode : PublicKey.decode key.key = .ok r.keyPair.publicKey := by
      rw [hpublish]
      exact PublicKey.decode_wire _
    simp only [Option.mapM_some, hdecode] at hpreKey
    cases hpreKey
    cases hk
    exact ⟨r, hr, rfl⟩

end DoubleRatchet
