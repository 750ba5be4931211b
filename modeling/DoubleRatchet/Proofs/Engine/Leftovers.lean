import DoubleRatchet.Proofs.Engine.Rotation

/-!
# What is left when ids run out

Pre-keys are stored as soon as they are made. A call that succeeds publishes all
that it has stored. A call that runs out of ids publishes nothing, but takes
back none of what it has stored by then. Main statement:
`PreKeys.generation_leaves`.
-/
namespace DoubleRatchet

namespace Stores

/-- Stores have gained one-time pre-keys, each under its own id. All other
one-time pre-keys are as before, and so are identities and sessions. -/
structure Gained (s : Stores) (made : List PreKeyRecord) (t : Stores) : Prop where
  stored : ∀ r ∈ made, t.preKeys.get? r.id = some r
  untouched : ∀ id, id ∉ made.map (·.id) → t.preKeys.get? id = s.preKeys.get? id
  identity : t.identity = s.identity
  sessions : t.sessions = s.sessions

/-- They have gained nothing else, and are as before only if all that they have
gained was there before. -/
structure GainedOnly (s : Stores) (made : List PreKeyRecord)
    (t : Stores) : Prop extends Gained s made t where
  signedPreKeys : t.signedPreKeys = s.signedPreKeys
  same_iff : t = s ↔ ∀ r ∈ made, s.preKeys.get? r.id = some r

theorem gainedOnly_stock (s : Stores) {made : List PreKeyRecord} (hids : (made.map (·.id)).Nodup) :
    s.GainedOnly made (s.stock made) where
  stored _ hr := get?_stock_of_mem hids hr
  untouched _ hid := get?_stock_of_notMem hid
  identity := by rw [stock_eq]
  sessions := by rw [stock_eq]
  signedPreKeys := by rw [stock_eq]
  same_iff := stock_eq_self_iff hids

end Stores

namespace PreKeys

/-- There is no next id if the greatest one is in use. -/
theorem nextSignedId_error {s : Stores} {fault : SessionError} (h : nextSignedId s = .error fault) :
    fault = .session (.invalidState .signedPreKeyIdsExhausted) ∧
      ∃ max, s.signedPreKeys.maxKey? = some max ∧ max.toNat = UInt32.size - 1 := by
  rw [nextSignedId] at h
  split at h
  · cases h
  · next max hmax =>
    split at h
    · next htop => exact ⟨(Except.error.inj h).symm, max, hmax, htop⟩
    · cases h

variable [Suite]

/-- What making one-time pre-keys comes to. There are as many as are wanted, and
they are published, or there are too few ids and none is published. -/
def Supplies (made : List PreKeyRecord) (count : Nat) :
    Except SessionError (List PublishedPreKey) → Prop
  | .ok keys => made.length = count ∧ keys = made.map publish
  | .error fault => made.length < count ∧ fault = .session (.invalidState .preKeyIdsExhausted)

/-- One-time pre-keys that are made are stored, whether they are published or not. -/
theorem generate_leaves (d : Device) (start : UInt32) (count : Nat) :
    let made := (batch start.toNat count d.entropy).1
    Supplies made count (outcome (generate start.toNat count) d).1 ∧
      d.stores.GainedOnly made (outcome (generate start.toNat count) d).2.stores := by
  intro made
  have hstart : start.toNat < UInt32.size := start.toNat_lt
  have hlength : made.length = min count (UInt32.size - start.toNat) := length_batch ..
  rw [outcome_generate]
  refine ⟨?_, Stores.gainedOnly_stock d.stores (nodup_ids_batch ..)⟩
  by_cases hroom : count = 0 ∨ start.toNat + count ≤ UInt32.size
  · rw [if_pos hroom]
    exact ⟨by omega, rfl⟩
  · rw [if_neg hroom]
    exact ⟨by omega, rfl⟩

/-- What making a bundle comes to, with a signed pre-key under a new id if there is one. -/
def Bundles (s : Stores) (deviceId : UInt32) (made : List PreKeyRecord) (count : Nat) (t : Stores) :
    Except SessionError PublishedBundle → Prop
  | .ok p => made.length = count ∧ s.Gained made t ∧ ∃ signed,
      p = bundle t deviceId signed (made.map publish) ∧
    signed.keyPair.Genuine ∧ s.Adds signed t
  | .error fault => (made.length < count ∧ fault = .session (.invalidState .preKeyIdsExhausted) ∨
      (∃ max, s.signedPreKeys.maxKey? = some max ∧ max.toNat = UInt32.size - 1) ∧
        fault = .session (.invalidState .signedPreKeyIdsExhausted)) ∧
    s.GainedOnly made t

theorem generateBundle_leaves (d : Device) (deviceId start : UInt32) (count : Nat) (now : UInt64) :
    Bundles d.stores deviceId (batch start.toNat count d.entropy).1 count
      (outcome (generateBundle deviceId start count now) d).2.stores
      (outcome (generateBundle deviceId start count now) d).1 := by
  obtain ⟨hsupplies, hgained⟩ := generate_leaves d start count
  rw [outcome_generateBundle]
  generalize (batch start.toNat count d.entropy).1 = made at hsupplies hgained ⊢
  generalize outcome (generate start.toNat count) d = supplied at hsupplies hgained ⊢
  rcases supplied with ⟨fault | keys, d₁⟩
  · exact ⟨.inl hsupplies, hgained⟩
  · obtain ⟨hlength, rfl⟩ := hsupplies
    -- Whether there is an id for the signed one is seen only now that all others are stored.
    cases hid : nextSignedId d.stores with
    | error fault => exact ⟨.inr (nextSignedId_error hid).symm, hgained⟩
    | ok id =>
      have hsigned : d₁.stores.signedPreKeys = d.stores.signedPreKeys := hgained.signedPreKeys
      refine ⟨hlength,
        ⟨hgained.stored, hgained.untouched, hgained.identity, hgained.sessions⟩, _, rfl,
        genuine_keyPair d₁.entropy, ?_, fun other r hr => lt_nextSignedId hid hr⟩
      rw [← hsigned]
      rfl

/-- What a call leaves, with a signed pre-key and without one. What is made has
new pairs under the ids from the first one on, as many as there are. All of it
is stored in any case. It is published if the call succeeds; and if the call
fails, the stores are as before only if it was all there before. -/
theorem generation_leaves (d : Device) (deviceId start : UInt32) (count : Nat) (now : UInt64) :
    let made := (batch start.toNat count d.entropy).1
    let supplied := outcome (generate start.toNat count) d
    let published := outcome (generateBundle deviceId start count now) d
    (made.map (·.id) = idsFrom start.toNat count ∧ ∀ r ∈ made, r.keyPair.Genuine) ∧
      (Supplies made count supplied.1 ∧ d.stores.GainedOnly made supplied.2.stores) ∧
      Bundles d.stores deviceId made count published.2.stores published.1 :=
  ⟨⟨ids_batch .., fun _ hr => genuine_batch hr⟩, generate_leaves d start count,
    generateBundle_leaves d deviceId start count now⟩

end PreKeys

/-- Four pre-keys are wanted where there are two ids. The call fails, and the two are stored. -/
theorem PreKeys.generation_leaves_top :
    let := Small.suite
    let made := (batch 4294967294 4 (Small.device 101).entropy).1
    let published := outcome (generateBundle 1 4294967294 4 0) (Small.device 101)
    made.map (·.id) = [4294967294, 4294967295] ∧
      published.1 = .error (.session (.invalidState .preKeyIdsExhausted)) ∧
      (∀ r ∈ made, published.2.stores.preKeys.get? r.id = some r) ∧
      published.2.stores ≠ (Small.device 101).stores := by
  intro _ made published
  obtain ⟨⟨hids, -⟩, -, hbundles⟩ := generation_leaves (Small.device 101) 1 4294967294 4 0
  have hmade : made.map (·.id) = [4294967294, 4294967295] := hids.trans (by decide)
  have hlength : made.length = 2 := by
    rw [← List.length_map (·.id), hmade, List.length_cons, List.length_singleton]
  change Bundles _ _ made 4 published.2.stores published.1 at hbundles
  rcases hresult : published.1 with fault | p <;> rw [hresult] at hbundles
  · obtain ⟨⟨-, rfl⟩ | ⟨⟨max, hmax, -⟩, -⟩, hgained⟩ := hbundles
    · refine ⟨hmade, rfl, hgained.stored, fun hsame => ?_⟩
      obtain ⟨r, hr⟩ := List.exists_mem_of_length_pos (by rw [hlength]; decide)
      cases hgained.same_iff.mp hsame r hr
    · cases hmax
  · have hall : made.length = 4 := hbundles.1
    omega

end DoubleRatchet
