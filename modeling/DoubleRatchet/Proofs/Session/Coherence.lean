import DoubleRatchet.Proofs.Session.Reading

/-!
# Coherent states and spent messages

In a coherent state every cached key belongs to a chain that is held and lies
behind it. A message is spent when its chain is past it and no key for it is
cached: a coherent state reads no message twice, because reading spends the
message and nothing but the loss of the chain makes it unspent.
-/
namespace DoubleRatchet.State

/-- The chains have distinct ratchet keys, there is one entry for each message,
and every entry lies behind a chain that is held. -/
structure Coherent (s : State) : Prop where
  chains : (s.receivers.map ReceiverChain.ratchetKey).Nodup
  distinct : s.skipped.Distinct
  behind : ∀ e ∈ s.skipped.entries, ∃ ch ∈ s.receivers,
    ch.ratchetKey = e.ratchetKey ∧ e.keys.counter < ch.chain.index

/-- The message at a counter of a chain can no longer be read. -/
structure Spent (s : State) (r : PublicKey) (n : UInt32) : Prop where
  past : ∃ chain, s.receiverChain? r = some chain ∧ n < chain.index
  gone : ∀ e ∈ s.skipped.entries, e.name ≠ (r, n)

/-- What a state holds of its peer: the chains and the entries alone. -/
theorem Coherent.congr {s t : State} (h : s.Coherent) (hr : t.receivers = s.receivers)
    (hs : t.skipped = s.skipped) : t.Coherent :=
  ⟨hr ▸ h.chains, hs ▸ h.distinct, by rw [hr, hs]; exact h.behind⟩

theorem receiverChain?_congr {s t : State} (hr : t.receivers = s.receivers) (r : PublicKey) :
    t.receiverChain? r = s.receiverChain? r := by
  rw [receiverChain?, receiverChain?, hr]

theorem receiverChain?_expire (c : Config) (now : UInt64) (s : State) (r : PublicKey) :
    (s.expire c now).receiverChain? r = s.receiverChain? r :=
  receiverChain?_congr (expire_receivers c now s) r

theorem Spent.congr {s t : State} {r : PublicKey} {n : UInt32} (h : s.Spent r n)
    (hr : t.receivers = s.receivers) (hs : t.skipped = s.skipped) : t.Spent r n :=
  ⟨receiverChain?_congr hr r ▸ h.past, hs ▸ h.gone⟩

/-- A coherent state keeps its coherence when entries go. -/
theorem Coherent.shrink {s t : State} (h : s.Coherent) (hr : t.receivers = s.receivers)
    (hd : t.skipped.Distinct) (hs : ∀ e ∈ t.skipped.entries, e ∈ s.skipped.entries) :
    t.Coherent := by
  refine ⟨hr ▸ h.chains, hd, fun e he => ?_⟩
  rw [hr]
  exact h.behind e (hs e he)

theorem Spent.shrink {s t : State} {r : PublicKey} {n : UInt32} (h : s.Spent r n)
    (hr : t.receivers = s.receivers) (hs : ∀ e ∈ t.skipped.entries, e ∈ s.skipped.entries) :
    t.Spent r n :=
  ⟨receiverChain?_congr hr r ▸ h.past, fun e he => h.gone e (hs e he)⟩

theorem Coherent.expire {s : State} (h : s.Coherent) (c : Config) (now : UInt64) :
    (s.expire c now).Coherent :=
  h.shrink (expire_receivers c now s)
    (h.distinct.sublist (expire_sublist c now s)) fun _ => mem_expire

theorem Spent.expire {s : State} {r : PublicKey} {n : UInt32} (h : s.Spent r n) (c : Config)
    (now : UInt64) :
    (s.expire c now).Spent r n :=
  h.shrink (expire_receivers c now s) fun _ => mem_expire

section Ratchet

variable {c : Config} {s : State} {their : PublicKey} {chain sending : ChainKey} {root : RootKey}
  {fresh : KeyPair}

theorem mem_ratcheted_receivers {ch : ReceiverChain} :
    ch ∈ (s.ratcheted c their chain root fresh sending).receivers ↔
      ch ∈ s.receivers.drop (s.excess c.maxReceiverChains) ∨ ch = ⟨their, chain⟩ := by
  simp [ratcheted]

theorem mem_ratcheted_entries {e : SkippedKey} :
    e ∈ (s.ratcheted c their chain root fresh sending).skipped.entries ↔
      e ∈ s.skipped.entries ∧ e.ratchetKey ∉ s.dropped c.maxReceiverChains :=
  SkippedKeys.mem_purgeAll

/-- A chain is either dropped for the new one or kept, not both. -/
theorem kept_or_dropped {ch : ReceiverChain} (h : ch ∈ s.receivers) (bound : Nat) :
    ch.ratchetKey ∈ s.dropped bound ∨ ch ∈ s.receivers.drop (s.excess bound) := by
  rw [← List.take_append_drop (s.excess bound) s.receivers] at h
  rcases List.mem_append.mp h with h | h
  · exact .inl (List.mem_map_of_mem h)
  · exact .inr h

theorem Coherent.ratcheted (h : s.Coherent) (new : s.receiverChain? their = none) :
    (s.ratcheted c their chain root fresh sending).Coherent := by
  have hnew := receiverChain?_eq_none.mp new
  refine ⟨?_, h.distinct.purgeAll _, fun e he => ?_⟩
  · have hkept :
        ((s.receivers.drop (s.excess c.maxReceiverChains)).map ReceiverChain.ratchetKey).Nodup :=
      h.chains.sublist (List.Sublist.map _ (List.drop_sublist _ _))
    simp only [State.ratcheted, List.map_append, List.nodup_append]
    refine ⟨hkept, by simp, fun a ha b hb hab => ?_⟩
    obtain ⟨ch, hch, rfl⟩ := List.mem_map.mp ha
    have hb' : b = their := by simpa using hb
    exact hnew ch (List.mem_of_mem_drop hch) (hab.trans hb')
  · obtain ⟨he, hkey⟩ := mem_ratcheted_entries.mp he
    obtain ⟨ch, hch, hr, hlt⟩ := h.behind e he
    rcases kept_or_dropped hch c.maxReceiverChains with hdrop | hkeep
    · exact absurd (hr ▸ hdrop) hkey
    · exact ⟨ch, mem_ratcheted_receivers.mpr (.inl hkeep), hr, hlt⟩

theorem receiverChain?_ratcheted_self (h : s.Coherent) (new : s.receiverChain? their = none) :
    (s.ratcheted c their chain root fresh sending).receiverChain? their = some chain :=
  (receiverChain?_eq_some (h.ratcheted new).chains).mpr (mem_ratcheted_receivers.mpr (.inr rfl))

/-- A chain that was held before a ratchet step and is held after it is the same chain. -/
theorem receiverChain?_ratcheted (h : s.Coherent) (new : s.receiverChain? their = none)
    {r : PublicKey} {old : ChainKey} (hold : s.receiverChain? r = some old)
    (hkeep : (s.ratcheted c their chain root fresh sending).hasReceiverChain r = true) :
    (s.ratcheted c their chain root fresh sending).receiverChain? r = some old := by
  obtain ⟨ch, hch, hr⟩ := List.mem_map.mp (hasReceiverChain_iff.mp hkeep)
  have hne : their ≠ r := by
    intro heq
    rw [heq, hold] at new
    cases new
  rcases mem_ratcheted_receivers.mp hch with hmem | rfl
  · have hheld := receiverChain?_of_mem h.chains (List.mem_of_mem_drop hmem)
    rw [hr, hold] at hheld
    rw [← hr, receiverChain?_of_mem (h.ratcheted new).chains hch, ← Option.some_inj.mp hheld]
  · exact absurd hr hne

theorem Spent.ratcheted {r : PublicKey} {n : UInt32} (hs : s.Spent r n) (h : s.Coherent)
    (new : s.receiverChain? their = none)
    (hkeep : (s.ratcheted c their chain root fresh sending).hasReceiverChain r = true) :
    (s.ratcheted c their chain root fresh sending).Spent r n := by
  obtain ⟨old, hold, hlt⟩ := hs.past
  exact ⟨⟨old, receiverChain?_ratcheted h new hold hkeep, hlt⟩,
    fun e he => hs.gone e (mem_ratcheted_entries.mp he).1⟩

end Ratchet

variable [Suite]

/-- Whoever stands ready to read is coherent and holds the chain. -/
theorem Coherent.ready {c : Config} {s t : State} {their : PublicKey} {e e' : Entropy}
    {chain : ChainKey} (h : s.Coherent) (hr : Ready c s their e chain t e') :
    t.Coherent ∧ t.receiverChain? their = some chain := by
  cases hr with
  | held hold => exact ⟨h, hold⟩
  | stepped new => exact ⟨h.ratcheted new, receiverChain?_ratcheted_self h new⟩

theorem Spent.ready {c : Config} {s t : State} {their r : PublicKey} {n : UInt32} {e e' : Entropy}
    {chain : ChainKey} (hs : s.Spent r n) (h : s.Coherent) (hr : Ready c s their e chain t e')
    (hkeep : t.hasReceiverChain r = true) : t.Spent r n := by
  cases hr with
  | held => exact hs
  | stepped new => exact hs.ratcheted h new hkeep

section Jump

variable {c : Config} {now : UInt64} {s : State} {their : PublicKey} {chain : ChainKey} {jump : Nat}

theorem receiverChain?_jumped_self (h : s.Coherent) (hold : s.receiverChain? their = some chain) :
    (s.jumped c now their chain jump).receiverChain? their = some (chain.advance (jump + 1)) := by
  have hmem : their ∈ s.receivers.map ReceiverChain.ratchetKey :=
    List.mem_map_of_mem (mem_of_receiverChain? hold)
  refine (receiverChain?_eq_some ?_).mpr (mem_moved_self hmem)
  exact (ratchetKeys_moved _ _ _).symm ▸ h.chains

theorem receiverChain?_jumped_of_ne (h : s.Coherent) {r : PublicKey} (hne : r ≠ their) :
    (s.jumped c now their chain jump).receiverChain? r = s.receiverChain? r := by
  have hd : ((s.jumped c now their chain jump).receivers.map ReceiverChain.ratchetKey).Nodup :=
    (ratchetKeys_moved _ _ _).symm ▸ h.chains
  cases hr : s.receiverChain? r with
  | some old =>
    exact (receiverChain?_eq_some hd).mpr (mem_moved_of_ne (mem_of_receiverChain? hr) hne)
  | none =>
    refine receiverChain?_eq_none.mpr fun ch hch hkey => ?_
    rcases mem_moved hch with rfl | ⟨hmem, -⟩
    · exact hne hkey.symm
    · exact receiverChain?_eq_none.mp hr ch hmem hkey

/-- The index of a chain after a jump, when it does not wrap. -/
theorem index_jumped (hsize : chain.index.toNat + jump + 1 < UInt32.size) :
    (chain.advance (jump + 1)).index.toNat = chain.index.toNat + jump + 1 :=
  ChainKey.advance_index_toNat (by omega)

theorem Coherent.jumped (h : s.Coherent) (hold : s.receiverChain? their = some chain)
    (hsize : chain.index.toNat + jump + 1 < UInt32.size) :
    (s.jumped c now their chain jump).Coherent := by
  have hindex := index_jumped hsize
  have hmem := mem_of_receiverChain? hold
  refine ⟨(ratchetKeys_moved _ _ _).symm ▸ h.chains, distinct_cacheAll h.distinct, fun e he => ?_⟩
  have hself : ⟨their, chain.advance (jump + 1)⟩ ∈ (s.jumped c now their chain jump).receivers :=
    mem_moved_self (List.mem_map_of_mem hmem)
  rcases mem_cacheAll he with hold' | ⟨i, hi, rfl⟩
  · obtain ⟨ch, hch, hr, hlt⟩ := h.behind e hold'
    by_cases hkey : ch.ratchetKey = their
    · have hchain : ch.chain = chain := by
        have hheld := receiverChain?_of_mem h.chains hch
        rw [hkey, hold] at hheld
        exact (Option.some_inj.mp hheld).symm
      refine ⟨_, hself, hkey ▸ hr, ?_⟩
      rw [hchain, UInt32.lt_iff_toNat_lt] at hlt
      rw [UInt32.lt_iff_toNat_lt, hindex]
      omega
    · exact ⟨ch, mem_moved_of_ne hch hkey, hr, hlt⟩
  · refine ⟨_, hself, rfl, ?_⟩
    have hi' : (chain.advance i).index.toNat = chain.index.toNat + i :=
      ChainKey.advance_index_toNat (by omega)
    rw [ChainKey.messageKeys_counter, UInt32.lt_iff_toNat_lt, hindex, hi']
    omega

theorem Spent.jumped {r : PublicKey} {n : UInt32} (hs : s.Spent r n) (h : s.Coherent)
    (hold : s.receiverChain? their = some chain)
    (hsize : chain.index.toNat + jump + 1 < UInt32.size) :
    (s.jumped c now their chain jump).Spent r n := by
  obtain ⟨old, hpast, hlt⟩ := hs.past
  rw [UInt32.lt_iff_toNat_lt] at hlt
  have hsame : r = their → old = chain := by
    rintro rfl
    exact Option.some_inj.mp (hpast.symm.trans hold)
  refine ⟨?_, fun e he hname => ?_⟩
  · by_cases hr : r = their
    · rw [hr]
      refine ⟨_, receiverChain?_jumped_self h hold, ?_⟩
      rw [UInt32.lt_iff_toNat_lt, index_jumped hsize]
      rw [hsame hr] at hlt
      omega
    · exact ⟨old, (receiverChain?_jumped_of_ne h hr).trans hpast, UInt32.lt_iff_toNat_lt.mpr hlt⟩
  · rcases mem_cacheAll he with hmem | ⟨i, hi, rfl⟩
    · exact hs.gone e hmem hname
    · obtain ⟨hr, hn⟩ := Prod.mk.inj hname
      have hi' : (chain.advance i).index.toNat = chain.index.toNat + i :=
        ChainKey.advance_index_toNat (by omega)
      rw [← hn, hsame hr.symm, ChainKey.messageKeys_counter, hi'] at hlt
      omega

/-- A jump spends the message at its end. -/
theorem spent_jumped (h : s.Coherent) (hold : s.receiverChain? their = some chain) {n : UInt32}
    (hn : n.toNat = chain.index.toNat + jump) (hsize : n.toNat + 1 < UInt32.size) :
    (s.jumped c now their chain jump).Spent their n := by
  refine ⟨⟨_, receiverChain?_jumped_self h hold, ?_⟩, fun e he hname => ?_⟩
  · rw [UInt32.lt_iff_toNat_lt, index_jumped (by omega)]
    omega
  · rcases mem_cacheAll he with hmem | ⟨i, hi, rfl⟩
    · obtain ⟨ch, hch, hr, hlt⟩ := h.behind e hmem
      obtain ⟨hkey, hcounter⟩ := Prod.mk.inj hname
      have hheld := receiverChain?_of_mem h.chains hch
      rw [hr, hkey, hold] at hheld
      rw [← Option.some_inj.mp hheld, hcounter, UInt32.lt_iff_toNat_lt] at hlt
      omega
    · have hi' : (chain.advance i).index.toNat = chain.index.toNat + i :=
        ChainKey.advance_index_toNat (by omega)
      have hcounter : (chain.advance i).index = n := (Prod.mk.inj hname).2
      rw [hcounter] at hi'
      omega

end Jump

theorem Coherent.supplied {c : Config} {now : UInt64} {s t : State} {their : PublicKey}
    {chain : ChainKey} {n : UInt32} {keys : MessageKeys} (h : s.Coherent)
    (hold : s.receiverChain? their = some chain) (hk : Supplied c now s their chain n keys t) :
    t.Coherent ∧ t.Spent their n := by
  cases hk with
  | cached behind take =>
    obtain ⟨-, rfl⟩ := SkippedKeys.take?_eq_some take
    refine ⟨h.shrink rfl (h.distinct.erase _ _) fun e he => SkippedKeys.mem_of_mem_erase he, ?_, ?_⟩
    · exact ⟨chain, hold, behind⟩
    · exact fun e he => h.distinct.name_ne_of_mem_erase he
  | reached ahead near short =>
    obtain ⟨hn, hsize⟩ := toNat_eq_add_jump ahead short
    exact ⟨h.jumped hold (by omega), spent_jumped h hold hn hsize⟩

theorem Spent.supplied {c : Config} {now : UInt64} {s t : State} {their r : PublicKey}
    {chain : ChainKey} {k n : UInt32} {keys : MessageKeys} (hs : s.Spent r n) (h : s.Coherent)
    (hold : s.receiverChain? their = some chain) (hk : Supplied c now s their chain k keys t) :
    t.Spent r n := by
  cases hk with
  | cached behind take =>
    obtain ⟨-, rfl⟩ := SkippedKeys.take?_eq_some take
    exact hs.shrink rfl fun e he => SkippedKeys.mem_of_mem_erase he
  | reached ahead near short =>
    obtain ⟨hn, hsize⟩ := toNat_eq_add_jump ahead short
    exact hs.jumped h hold (by omega)

theorem Coherent.encrypt {s t : State} {plain : Bytes} {m : Message} (h : s.Coherent)
    (hm : s.encrypt plain = .ok (m, t)) : t.Coherent := by
  obtain ⟨-, -, rfl⟩ := encrypt_ok.mp hm
  exact h.congr rfl rfl

theorem Spent.encrypt {s t : State} {r : PublicKey} {n : UInt32} {plain : Bytes} {m : Message}
    (h : s.Spent r n) (hm : s.encrypt plain = .ok (m, t)) : t.Spent r n := by
  obtain ⟨-, -, rfl⟩ := encrypt_ok.mp hm
  exact h.congr rfl rfl

section Message

variable {c : Config} {now : UInt64} {s after : State} {m : RatchetMessage} {e e' : Entropy}
  {plain : Bytes}

/-- A message that is read leaves a coherent state, for which it is spent. -/
theorem Coherent.reads (h : s.Coherent) (hr : s.Reads c now m e plain after e') :
    after.Coherent ∧ after.Spent m.ratchetKey m.counter := by
  obtain ⟨-, chain, ready, keys, taken, hready, hkeys, -, -, rfl⟩ := hr
  obtain ⟨hcoherent, hold⟩ := (h.expire c now).ready hready
  obtain ⟨htaken, hspent⟩ := hcoherent.supplied hold ((keysAt_ok hcoherent.chains hold).mp hkeys)
  exact ⟨htaken.congr rfl rfl, hspent.congr rfl rfl⟩

/-- What is spent stays spent when another message is read, while its chain is held. -/
theorem Spent.reads {r : PublicKey} {n : UInt32} (hs : s.Spent r n) (h : s.Coherent)
    (hr : s.Reads c now m e plain after e') (hkeep : after.hasReceiverChain r = true) :
    after.Spent r n := by
  obtain ⟨-, chain, ready, keys, taken, hready, hkeys, -, -, rfl⟩ := hr
  obtain ⟨hcoherent, hold⟩ := (h.expire c now).ready hready
  have hsupply := (keysAt_ok hcoherent.chains hold).mp hkeys
  have hheld : ready.hasReceiverChain r = true := by
    rw [hasReceiverChain_iff] at hkeep ⊢
    cases hsupply with
    | cached => exact hkeep
    | reached => exact (ratchetKeys_moved _ _ _) ▸ hkeep
  exact (((hs.expire c now).ready (h.expire c now) hready hheld).supplied hcoherent hold
    hsupply).congr rfl rfl

/-- A chain that is held after a message is read was held before, or is the message's own. -/
theorem Coherent.held_of_reads (h : s.Coherent) (hr : s.Reads c now m e plain after e')
    {r : PublicKey} (hheld : after.hasReceiverChain r = true) :
    s.hasReceiverChain r = true ∨ r = m.ratchetKey := by
  obtain ⟨-, chain, ready, keys, taken, hready, hkeys, -, -, rfl⟩ := hr
  obtain ⟨hcoherent, hold⟩ := (h.expire c now).ready hready
  have hexpire : (s.expire c now).receivers = s.receivers := expire_receivers c now s
  have hbefore : r ∈ ready.receivers.map ReceiverChain.ratchetKey := by
    have hafter : r ∈ taken.receivers.map ReceiverChain.ratchetKey := hasReceiverChain_iff.mp hheld
    cases (keysAt_ok hcoherent.chains hold).mp hkeys with
    | cached => exact hafter
    | reached => exact (ratchetKeys_moved _ _ _) ▸ hafter
  rw [hasReceiverChain_iff, ← hexpire]
  cases hready with
  | held => exact .inl hbefore
  | stepped =>
    obtain ⟨ch, hch, rfl⟩ := List.mem_map.mp hbefore
    rcases mem_ratcheted_receivers.mp hch with hch | rfl
    · exact .inl (List.mem_map_of_mem (List.mem_of_mem_drop hch))
    · exact .inr rfl

/-- A message that is spent once the expired keys are gone is refused as a
duplicate, before anything is drawn. -/
theorem decrypt_spent_expired (hs : (s.expire c now).Spent m.ratchetKey m.counter)
    (version : m.version = s.version) (e : Entropy) :
    ∃ index, outcome (s.decrypt c now m) e =
      (.error (.message (.duplicate index m.counter)), e) := by
  obtain ⟨⟨chain, hold, hlt⟩, hgone⟩ := hs
  have htake := SkippedKeys.take?_eq_none.mpr hgone
  refine ⟨chain.index, ?_⟩
  unfold decrypt
  simp only [version, ne_eq, not_true_eq_false, if_false]
  rw [outcome_bind, receivingChain_held hold]
  simp only [outcome_bind, outcome_mk, keysAt_error_of_behind hlt htake]

theorem decrypt_spent (hs : s.Spent m.ratchetKey m.counter) (version : m.version = s.version)
    (c : Config) (now : UInt64) (e : Entropy) :
    ∃ index, outcome (s.decrypt c now m) e = (.error (.message (.duplicate index m.counter)), e) :=
  decrypt_spent_expired (hs.expire c now) version e

/-- A spent message is not read, whatever its version. -/
theorem not_reads_of_spent (hs : s.Spent m.ratchetKey m.counter) :
    ¬s.Reads c now m e plain after e' := by
  intro hr
  obtain ⟨index, herror⟩ := decrypt_spent hs hr.version c now e
  rw [decrypt_ok.mpr hr] at herror
  cases herror

end Message

end DoubleRatchet.State
