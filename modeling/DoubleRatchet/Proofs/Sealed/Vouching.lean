import DoubleRatchet.Proofs.Curve.Clamping
import DoubleRatchet.Proofs.Engine.PreKeys
import DoubleRatchet.Proofs.Sealed.Authority
import DoubleRatchet.Proofs.Sealed.Refusals

/-!
# What signatures vouch for

A key as it is read or drawn signs what its public half verifies. So the
identity of a party vouches for the signed pre-key in each bundle that the party
publishes, and a trust root for the servers and senders certified under it.
Main statement: `signatures_verify`.
-/
namespace DoubleRatchet

/-- What is read from bytes is clamped. -/
theorem PrivateKey.clamped_ofBytes {bs : Bytes} {key : PrivateKey} (h : ofBytes bs = .ok key) :
    key.Clamped := by
  rw [ofBytes] at h
  split at h
  · cases h
    exact clamped_clamp _
  · cases h

variable [Suite]

/-- A pair as it is drawn or read: its halves belong together, and the private one is clamped. -/
structure KeyPair.Proper (pair : KeyPair) : Prop where
  genuine : pair.Genuine
  clamped : pair.privateKey.Clamped

theorem Draw.proper_keyPair (e : Entropy) : (keyPair e).1.Proper :=
  ⟨genuine_keyPair e, PrivateKey.clamped_clamp _⟩

theorem PrivateKey.Clamped.signs {Point : Type} {group : SigningGroup Point}
    {Multiple : ZMod Xeddsa.order → Point → Prop} (h : Suite.Signing group Multiple)
    {key : PrivateKey} (hkey : key.Clamped) : key.Signs := by
  rw [← hkey]
  exact h.signs key.bytes

/-- A bundle can be read with any one-time key that it lists, or with none named, and
its signature is good. -/
def PublishedBundle.Vouched (p : PublishedBundle) : Prop :=
  ∀ preKeyId : Option UInt32, (∀ id ∈ preKeyId, ∃ k ∈ p.preKeys, k.id = id) →
    ∃ b, Bundle.ofPublished p preKeyId = .ok b ∧ b.hasValidSignature = true

/-- The identity has signed the public key of a signed pre-key. -/
def KeyPair.Endorses (identity : KeyPair) (signed : SignedPreKeyRecord) : Prop :=
  identity.publicKey.verifies signed.keyPair.publicKey.wire.toList signed.signature = true

/-- A signed pre-key that some device with this identity has made for a bundle. -/
def SignedPreKeyRecord.MadeFor (identity : KeyPair) (r : SignedPreKeyRecord) : Prop :=
  ∃ deviceId start count now d p d',
    outcome (PreKeys.generateBundle deviceId start count now) d = (.ok p, d') ∧
    d.stores.identity.keyPair = identity ∧ d'.stores.signedPreKeys.get? p.signedPreKeyId = some r

/-- All signed pre-keys of a store have been made for bundles of its own identity. -/
def Stores.Supplied (s : Stores) : Prop :=
  ∀ id r, s.signedPreKeys.get? id = some r → r.MadeFor s.identity.keyPair

namespace PreKeys

theorem endorses_generateSigned {identity : KeyPair} (hgenuine : identity.Genuine)
    (hsigns : identity.privateKey.Signs) (id : UInt32) (now : UInt64) (e : Entropy) :
    identity.Endorses (generateSigned id identity now e).1 := by
  rw [KeyPair.Endorses, hgenuine]
  exact hsigns.verifies _ _

theorem vouched_bundle {s : Stores} {signed : SignedPreKeyRecord}
    (h : s.identity.keyPair.Endorses signed) (deviceId : UInt32) {keys : List PublishedPreKey}
    (hkeys : ∀ k ∈ keys, ∃ r, k = publish r) :
    (bundle s deviceId signed keys).Vouched := by
  intro preKeyId hlisted
  obtain ⟨preKey, hread⟩ := ofPublished_bundle s deviceId signed hkeys hlisted
  exact ⟨_, hread, h⟩

variable {deviceId start : UInt32} {count : Nat} {now : UInt64} {d d' : Device}
  {p : PublishedBundle}

theorem vouched_generateBundle (hgenuine : d.stores.identity.keyPair.Genuine)
    (hsigns : d.stores.identity.keyPair.privateKey.Signs)
    (h : outcome (generateBundle deviceId start count now) d = (.ok p, d')) : p.Vouched := by
  obtain ⟨id, e, keys, hidentity, -, rfl, hkeys⟩ := generateBundle_adds h
  refine vouched_bundle ?_ deviceId hkeys
  rw [hidentity]
  exact endorses_generateSigned hgenuine hsigns id now e

end PreKeys

/-- What was made for a bundle is signed. -/
theorem SignedPreKeyRecord.MadeFor.endorsed {identity : KeyPair} {r : SignedPreKeyRecord}
    (h : r.MadeFor identity) (hgenuine : identity.Genuine) (hsigns : identity.privateKey.Signs) :
    identity.Endorses r := by
  obtain ⟨deviceId, start, count, now, d, p, d', hmade, rfl, hstored⟩ := h
  obtain ⟨id, e, keys, -, hsigned, rfl, -⟩ := PreKeys.generateBundle_adds hmade
  rw [hsigned, Table.get?_insert] at hstored
  have hid : (PreKeys.generateSigned id d.stores.identity.keyPair now e).1.id = id := rfl
  obtain rfl := Option.some_inj.mp ((if_pos hid).symm.trans hstored)
  exact PreKeys.endorses_generateSigned hgenuine hsigns id now e

theorem PreKeys.vouched_currentBundle {s : Stores} (hgenuine : s.identity.keyPair.Genuine)
    (hsigns : s.identity.keyPair.privateKey.Signs) (hsupplied : s.Supplied) {deviceId : UInt32}
    {p : PublishedBundle} (h : currentBundle s deviceId = .ok p) : p.Vouched := by
  obtain ⟨id, signed, hstored, rfl⟩ := currentBundle_ok h
  refine vouched_bundle
    ((hsupplied id signed hstored).endorsed hgenuine hsigns) deviceId fun k hk => ?_
  obtain ⟨r, -, rfl⟩ := List.mem_map.mp hk
  exact ⟨r, rfl⟩

/-- No operation stores a signed pre-key that was not made for a bundle. -/
theorem Stores.supplied_perform {d : Device} (h : d.stores.Supplied) (c : Config) (op : Operation) :
    (op.perform c d).stores.Supplied := by
  have hacts := acts_perform c d op
  generalize (op.perform c d).stores = s at hacts ⊢
  cases hacts with
  | same => exact h
  | made deviceId start count now =>
    rcases hrun : outcome (PreKeys.generateBundle deviceId start count now) d with ⟨fault | p, d'⟩
    · intro id r hr
      rw [identity_generate]
      rw [Operation.perform, hrun, PreKeys.generateBundle_error hrun] at hr
      exact h id r hr
    · obtain ⟨added, e, keys, -, hsigned, hp, -⟩ := PreKeys.generateBundle_adds hrun
      intro id r hr
      rw [identity_generate]
      rw [Operation.perform, hrun, hsigned, Table.get?_insert] at hr
      split at hr
      · next hid =>
        subst hid
        refine ⟨deviceId, start, count, now, d, p, d', hrun, rfl, ?_⟩
        rw [hp, hsigned, Table.get?_insert]
        exact (if_pos rfl).trans hr
      · exact h id r hr
  | started => exact h
  | written => exact h
  | @read _ _ _ x =>
    cases hused : x.used with
    | none => exact h
    | some id => exact h

theorem Device.supplied_serve (keyPair : KeyPair) (registrationId : UInt32) (entropy : Entropy)
    (calls : List Call) :
    ((Device.new keyPair registrationId entropy).serve calls).stores.Supplied := by
  refine Device.serve_induction (fun c d op h => Stores.supplied_perform h c op) ?_ calls
  intro id r hr
  cases hr

/-- Over a group in two forms, as it is documented of the curve. Whatever a key that
is read or drawn signs verifies under its public half, for all nonces. So a bundle has
a good signature, as it is made or as it is put together from a store with signed
pre-keys that were made for bundles, and whichever key is chosen from it; calls supply
a device with no others. And a certificate that is issued under a root, for a name as
it can be held in memory, comes back from its bytes, like that of its signer, and is
accepted exactly until it expires. -/
theorem signatures_verify {Point : Type} {group : SigningGroup Point}
    {coordinate : Point → PublicKey} {Multiple : ZMod Xeddsa.order → Point → Prop}
    (forms : group.TwoForms Suite.publicKey coordinate Multiple)
    (sign : Suite.sign = Xeddsa.sign group) (verify : Suite.verify = Xeddsa.verify group) :
    ((∀ bs key, PrivateKey.ofBytes bs = .ok key → key.Clamped) ∧ ∀ e, (Draw.keyPair e).1.Proper) ∧
    (∀ key : PrivateKey, key.Clamped → ∀ message random,
      (Suite.publicKey key).verifies message (Suite.sign key message random).toList = true) ∧
    (∀ d : Device, d.stores.identity.keyPair.Proper → ∀ deviceId start count now p d',
      outcome (PreKeys.generateBundle deviceId start count now) d = (.ok p, d') → p.Vouched) ∧
    (∀ s : Stores, s.identity.keyPair.Proper → s.Supplied → ∀ deviceId p,
      PreKeys.currentBundle s deviceId = .ok p → p.Vouched) ∧
    (∀ keyPair registrationId entropy calls,
      ((Device.new keyPair registrationId entropy).serve calls).stores.Supplied) ∧
    ∀ root server : PrivateKey, root.Clamped → server.Clamped →
    ∀ keyId e e' sender identityKey expires,
      (utf8 sender.name).length < 1 <<< 63 →
      ∃ signer c, (ServerCertificate.issue root keyId (Suite.publicKey server) e).1 = .ok signer ∧
        (SenderCertificate.issue signer server sender identityKey expires e').1 = .ok c ∧
        ServerCertificate.parse signer.serialize = .ok signer ∧
        SenderCertificate.parse c.serialize = .ok c ∧
        ∀ time, c.validate (Suite.publicKey root) time =
          if time ≤ expires then .ok () else .error .expired := by
  have hsigning : Suite.Signing group Multiple := ⟨forms.lawful, sign, verify⟩
  have hsigns : ∀ key : PrivateKey, key.Clamped → key.Signs := fun key hkey => hkey.signs hsigning
  refine ⟨⟨fun bs key => PrivateKey.clamped_ofBytes, Draw.proper_keyPair⟩,
    fun key hkey => (hsigns key hkey).verifies, ?_, ?_, Device.supplied_serve, ?_⟩
  · intro d hd deviceId start count now p d' hmade
    exact PreKeys.vouched_generateBundle hd.genuine (hsigns _ hd.clamped) hmade
  · intro s hs hsupplied deviceId p hcurrent
    exact PreKeys.vouched_currentBundle hs.genuine (hsigns _ hs.clamped) hsupplied hcurrent
  · intro root server hroot hserver keyId e e' sender identityKey expires hname
    obtain ⟨signer, c, hsigner, hc, hread, hlength⟩ :=
      SenderCertificate.exists_issued (hsigns root hroot) keyId e e' hname identityKey expires
    obtain ⟨-, -, hwellFormed, hvalid⟩ :=
      SenderCertificate.Issued.valid (hsigns root hroot) (hsigns server hserver)
      ⟨keyId, e, signer, e', hsigner, hc⟩ hlength
    exact ⟨signer, c, hsigner, hc, hread.parse_serialize, hwellFormed.parse_serialize, hvalid⟩

namespace Small

/-- A party that signs, before it has made pre-keys and after. -/
def signer : Device := Device.new (@Draw.keyPair signingSuite (entropy 5)).1 1 (entropy 6)

def supplied : Device := @Device.serve signingSuite signer [.operation {} (.generate 1 1 2 0)]

def rootKey : PrivateKey := .clamp (.fill 32 1)

def serverKey : PrivateKey := .clamp (.fill 32 7)

end Small

omit [Suite] in
/-- A bundle with two one-time keys, of which the second is chosen; the same party's
bundle afterwards, with none named; and a certificate in its last millisecond and in
the next one. -/
theorem signatures_verify_small :
    let := Small.signingSuite
    (∃ p d' b, outcome (PreKeys.generateBundle 1 1 2 0) Small.signer = (.ok p, d') ∧
      Bundle.ofPublished p (some 2) = .ok b ∧ b.hasValidSignature = true) ∧
    (∃ p b, PreKeys.currentBundle Small.supplied.stores 1 = .ok p ∧
      Bundle.ofPublished p none = .ok b ∧
      b.hasValidSignature = true) ∧
    ∃ signer c,
      (ServerCertificate.issue Small.rootKey 1 (Suite.publicKey Small.serverKey)
        (Small.entropy 1)).1 = .ok signer ∧
      (SenderCertificate.issue signer Small.serverKey Small.alice default 31337
        (Small.entropy 2)).1 = .ok c ∧
      c.validate (Suite.publicKey Small.rootKey) 31337 = .ok () ∧
      c.validate (Suite.publicKey Small.rootKey) 31338 = .error .expired := by
  intro
  have hids : (outcome (PreKeys.generateBundle 1 1 2 0) Small.signer).1.map (·.preKeys.map (·.id)) =
      .ok [1, 2] := by
    decide +kernel
  have hlatest : Small.supplied.stores.latestSignedPreKey?.isSome = true := by decide +kernel
  have hname : (utf8 Small.alice.name).length < 1 <<< 63 := by decide +kernel
  obtain ⟨⟨-, hproper⟩, -, hgenerated, hstored, hsupplied, hissued⟩ :=
    signatures_verify Small.twoForms rfl rfl
  refine ⟨?_, ?_, ?_⟩
  · obtain ⟨p, hp, hids⟩ := map_ok.mp hids
    obtain ⟨d', hmade⟩ := outcome_of_result hp
    have hlisted : ∀ id ∈ some (2 : UInt32), ∃ k ∈ p.preKeys, k.id = id := by
      rintro id ⟨⟩
      exact List.mem_map.mp (hids ▸ List.mem_cons_of_mem 1 List.mem_cons_self)
    obtain ⟨b, hread, hvalid⟩ := hgenerated _ (hproper _) _ _ _ _ _ _ hmade _ hlisted
    exact ⟨p, d', b, hmade, hread, hvalid⟩
  · obtain ⟨p, hcurrent⟩ := PreKeys.exists_currentBundle hlatest 1
    obtain ⟨b, hread, hvalid⟩ :=
      hstored Small.supplied.stores (hproper (Small.entropy 5)) (hsupplied _ _ _ _) _ _
      hcurrent none (fun _ hid => nomatch hid)
    exact ⟨p, b, hcurrent, hread, hvalid⟩
  · obtain ⟨signer, c, hsigner, hc, -, -, hvalidate⟩ := hissued Small.rootKey Small.serverKey
      (PrivateKey.clamped_clamp _) (PrivateKey.clamped_clamp _) 1 (Small.entropy 1)
      (Small.entropy 2) Small.alice
      default 31337 hname
    exact ⟨signer, c, hsigner, hc, hvalidate _, hvalidate _⟩

end DoubleRatchet
