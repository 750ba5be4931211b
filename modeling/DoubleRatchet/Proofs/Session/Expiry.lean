import DoubleRatchet.Proofs.Session.Coherence

/-!
# The age of cached keys

A cached key is stale at a clock reading once it is older than the configured
age. A message whose key is cached is read with that key and takes it, until
the key is stale: from then on the message is refused like one that was read.
-/
namespace DoubleRatchet

/-- Whether a key is older at a clock reading than keys are kept. -/
def SkippedKey.Stale (c : Config) (now : UInt64) (e : SkippedKey) : Prop :=
  ∃ age ∈ c.skippedKeyMaxAge, e.storedAt.toNat + age.toNat < now.toNat

instance (c : Config) (now : UInt64) : DecidablePred (SkippedKey.Stale c now) := fun e =>
  inferInstanceAs (Decidable (∃ age ∈ c.skippedKeyMaxAge, e.storedAt.toNat + age.toNat < now.toNat))

/-- The time before which keys are dropped is reached at zero, not below. -/
theorem lt_cutoff_iff {storedAt now age : UInt64} :
    storedAt < UInt64.ofNat (now.toNat - age.toNat) ↔ storedAt.toNat + age.toNat < now.toNat := by
  have hfits : (UInt64.ofNat (now.toNat - age.toNat)).toNat = now.toNat - age.toNat := by
    have hnow : now.toNat < UInt64.size := now.toNat_lt
    exact UInt64.toNat_ofNat_of_lt' (by omega)
  rw [UInt64.lt_iff_toNat_lt, hfits]
  omega

namespace State

variable {c : Config} {now : UInt64} {s : State} {entry : SkippedKey}

/-- The entries that go are the stale ones. -/
theorem mem_expire_iff :
    entry ∈ (s.expire c now).skipped.entries ↔ entry ∈ s.skipped.entries ∧ ¬entry.Stale c now := by
  unfold expire SkippedKey.Stale
  cases c.skippedKeyMaxAge with
  | none => simp
  | some age => simp [pruneSkipped, SkippedKeys.mem_prune, lt_cutoff_iff]

/-- In a cache with distinct names an entry is known by its name. -/
theorem Coherent.eq_of_name (h : s.Coherent) {other : SkippedKey} (he : entry ∈ s.skipped.entries)
    (ho : other ∈ s.skipped.entries) (hname : other.name = entry.name) : other = entry :=
  List.inj_on_of_nodup_map h.distinct ho he hname

/-- The chain of a cached key is held and past it. -/
theorem Coherent.past (h : s.Coherent) (he : entry ∈ s.skipped.entries) :
    ∃ chain, s.receiverChain? entry.ratchetKey = some chain ∧ entry.keys.counter < chain.index := by
  obtain ⟨ch, hch, hkey, hlt⟩ := h.behind entry he
  exact ⟨ch.chain, hkey ▸ receiverChain?_of_mem h.chains hch, hlt⟩

/-- Once its key is stale a message is spent. -/
theorem Coherent.spent_of_stale (h : s.Coherent) (he : entry ∈ s.skipped.entries)
    (stale : entry.Stale c now) :
    (s.expire c now).Spent entry.ratchetKey entry.keys.counter := by
  refine ⟨?_, fun other ho hname => ?_⟩
  · rw [receiverChain?_expire]
    exact h.past he
  · obtain ⟨hmem, hfresh⟩ := mem_expire_iff.mp ho
    rw [h.eq_of_name he hmem hname] at hfresh
    exact hfresh stale

variable [Suite] {m : RatchetMessage}

/-- A message whose key is stale is refused as a duplicate. -/
theorem Coherent.decrypt_stale (h : s.Coherent) (he : entry ∈ s.skipped.entries)
    (stale : entry.Stale c now) (hname : m.name = entry.name) (version : m.version = s.version)
    (e : Entropy) :
    ∃ index, outcome (s.decrypt c now m) e =
      (.error (.message (.duplicate index m.counter)), e) := by
  obtain ⟨hkey, hcounter⟩ := Prod.mk.inj hname
  have hspent := h.spent_of_stale he stale
  rw [← hkey, ← hcounter] at hspent
  exact decrypt_spent_expired hspent version e

/-- Who holds the chain stands ready without a ratchet step. -/
theorem ready_held_iff {t : State} {their : PublicKey} {chain chain' : ChainKey} {e e' : Entropy}
    (hold : s.receiverChain? their = some chain) :
    Ready c s their e chain' t e' ↔ chain' = chain ∧ t = s ∧ e' = e := by
  constructor
  · intro h
    cases h with
    | held hold' => exact ⟨Option.some_inj.mp (hold'.symm.trans hold), rfl, rfl⟩
    | stepped new => cases new.symm.trans hold
  · rintro ⟨rfl, rfl, rfl⟩
    exact .held hold

/-- The keys of a message that is behind its chain are those of the entry for it. -/
theorem Coherent.keysAt_cached (h : s.Coherent) (he : entry ∈ s.skipped.entries) (now : UInt64)
    {r : PublicKey} {n : UInt32} (hname : (r, n) = entry.name) {chain : ChainKey}
    (hold : s.receiverChain? r = some chain) (behind : n < chain.index) :
    keysAt c now s r chain n = .ok (entry.keys, { s with skipped := s.skipped.erase r n }) := by
  refine (keysAt_ok h.chains hold).mpr (.cached behind ?_)
  cases hfound : s.skipped.take? r n with
  | none => exact absurd hname.symm (SkippedKeys.take?_eq_none.mp hfound entry he)
  | some found =>
    obtain ⟨⟨other, ho, hother, hkeys⟩, hrest⟩ := SkippedKeys.take?_eq_some hfound
    rw [h.eq_of_name he ho (hother.trans hname)] at hkeys
    exact congrArg some (Prod.ext hkeys.symm hrest)

/-- A message whose key is cached and not stale is read with that key, which leaves the cache. -/
theorem Coherent.reads_cached_iff (h : s.Coherent) (he : entry ∈ s.skipped.entries)
    (fresh : ¬entry.Stale c now) (hname : m.name = entry.name) {e e' : Entropy} {plain : Bytes}
    {after : State} :
    s.Reads c now m e plain after e' ↔ m.version = s.version ∧
      m.verify s.remoteIdentity s.localIdentity entry.keys.macKey.toList = true ∧
      Cbc.decrypt (Suite.cipher entry.keys.cipherKey) entry.keys.iv m.body = some plain ∧
      after = { s with
        skipped := (s.expire c now).skipped.erase m.ratchetKey m.counter
        pending := none } ∧ e' = e := by
  obtain ⟨hkey, hcounter⟩ := Prod.mk.inj hname
  have hcoherent := h.expire c now
  have hkept : entry ∈ (s.expire c now).skipped.entries := mem_expire_iff.mpr ⟨he, fresh⟩
  obtain ⟨chain, hold, hlt⟩ := hcoherent.past hkept
  rw [← hkey] at hold
  rw [← hcounter] at hlt
  have hsupply := hcoherent.keysAt_cached (c := c) hkept now hname hold hlt
  rw [expire_eq] at hsupply
  constructor
  · intro hreads
    obtain ⟨version, chain', ready, keys, taken, hready, hkeys, hverify, hplain, rfl⟩ := hreads
    obtain ⟨rfl, rfl, rfl⟩ := (ready_held_iff hold).mp hready
    rw [expire_eq, hsupply] at hkeys
    cases hkeys
    exact ⟨version, hverify, hplain, rfl, rfl⟩
  · rintro ⟨version, hverify, hplain, rfl, rfl⟩
    refine ⟨version, chain, _, entry.keys,
      { s with skipped := (s.expire c now).skipped.erase m.ratchetKey m.counter },
      (ready_held_iff hold).mpr ⟨rfl, rfl, rfl⟩, ?_, hverify, hplain, rfl⟩
    rw [expire_eq, hsupply]

/-- A cached key serves its message: in time it reads the message, if that is
genuine, and once it is stale the message is refused. -/
structure Available (c : Config) (s : State) (entry : SkippedKey) : Prop where
  cached : entry ∈ s.skipped.entries
  reads : ∀ (now : UInt64) (m : RatchetMessage) (e : Entropy) (plain : Bytes), ¬entry.Stale c now →
    m.name = entry.name → m.version = s.version →
    m.verify s.remoteIdentity s.localIdentity entry.keys.macKey.toList = true →
    Cbc.decrypt (Suite.cipher entry.keys.cipherKey) entry.keys.iv m.body = some plain →
    ∃ after, outcome (s.decrypt c now m) e = (.ok (plain, after), e)
  refuses : ∀ (now : UInt64) (m : RatchetMessage) (e : Entropy), entry.Stale c now →
      m.name = entry.name →
    ∃ fault, outcome (s.decrypt c now m) e = (.error fault, e)

theorem Coherent.available (h : s.Coherent) (he : entry ∈ s.skipped.entries) :
    s.Available c entry where
  cached := he
  reads now m e plain fresh hname version hverify hplain :=
    ⟨_, decrypt_ok.mpr
      ((h.reads_cached_iff he fresh hname).mpr ⟨version, hverify, hplain, rfl, rfl⟩)⟩
  refuses now m e stale hname := by
    by_cases version : m.version = s.version
    · obtain ⟨index, hrefused⟩ := h.decrypt_stale he stale hname version e
      exact ⟨_, hrefused⟩
    · refine ⟨.session (.unsupportedVersion m.version), ?_⟩
      unfold decrypt
      rw [if_pos version]
      rfl

end State

end DoubleRatchet
