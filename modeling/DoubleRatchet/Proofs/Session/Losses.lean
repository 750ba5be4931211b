import DoubleRatchet.Proofs.Session.Coherence

/-!
# Keys that are lost

The keys of a message that was passed over are cached, and leave the cache
unused in two ways: they are too old, or newer keys take their place. A state
accounts for its chains when every number behind one of them is cached or
accounted for otherwise; the losses of a reading make up for what it drops.
-/
namespace DoubleRatchet

namespace SkippedKeys

/-- Whether keys are cached for a message. -/
def Has (c : SkippedKeys) (name : PublicKey × UInt32) : Prop := ∃ e ∈ c.entries, e.name = name

/-- Caching keys loses no name but those that are evicted. -/
theorem has_insert_or_evicted {c : SkippedKeys} {r : PublicKey} {keys : MessageKeys}
    {storedAt : UInt64} {name : PublicKey × UInt32} (capacity : Nat)
    (h : c.Has name ∨ name = (r, keys.counter)) :
    (c.insert r keys storedAt capacity).2.Has name ∨
      name ∈ (c.evicted r keys storedAt capacity).map SkippedKey.name := by
  have hentry : ∃ e : SkippedKey, e.name = name ∧
      (e = ⟨r, keys, storedAt⟩ ∨ e ∈ c.entries ∧ e.name ≠ (r, keys.counter)) := by
    by_cases hname : name = (r, keys.counter)
    · exact ⟨⟨r, keys, storedAt⟩, hname.symm, .inl rfl⟩
    · rcases h with ⟨e, he, rfl⟩ | h
      · exact ⟨e, rfl, .inr ⟨he, hname⟩⟩
      · exact absurd h hname
  obtain ⟨e, rfl, he⟩ := hentry
  rcases mem_insert_or_evicted capacity he with h | h
  · exact .inl ⟨e, h, rfl⟩
  · exact .inr (List.mem_map_of_mem h)

theorem has_erase {c : SkippedKeys} {r : PublicKey} {n : UInt32} {name : PublicKey × UInt32}
    (h : c.Has name) :
    (c.erase r n).Has name ∨ name = (r, n) := by
  obtain ⟨e, he, rfl⟩ := h
  by_cases hname : e.name = (r, n)
  · exact .inr hname
  · exact .inl ⟨e, mem_erase_of_ne he hname, rfl⟩

end SkippedKeys

namespace State

/-- The entries that are past their age. -/
def expiring (c : Config) (now : UInt64) (s : State) : List SkippedKey :=
  match c.skippedKeyMaxAge with
  | some age => s.skipped.entries.filter (·.storedAt < UInt64.ofNat (now.toNat - age.toNat))
  | none => []

theorem has_expire {c : Config} {now : UInt64} {s : State} {name : PublicKey × UInt32}
    (h : s.skipped.Has name) :
    (s.expire c now).skipped.Has name ∨ name ∈ (s.expiring c now).map SkippedKey.name := by
  obtain ⟨e, he, rfl⟩ := h
  unfold expire expiring
  cases c.skippedKeyMaxAge with
  | none => exact .inl ⟨e, he, rfl⟩
  | some age =>
    by_cases hold : e.storedAt < UInt64.ofNat (now.toNat - age.toNat)
    · exact .inr (List.mem_map_of_mem (List.mem_filter.mpr ⟨he, decide_eq_true hold⟩))
    · exact .inl ⟨e, SkippedKeys.mem_prune.mpr ⟨he, hold⟩, rfl⟩

/-- Every number behind a chain that is held is cached or accounted for. -/
def Accounts (s : State) (other : PublicKey × UInt32 → Prop) : Prop :=
  ∀ r chain, s.receiverChain? r = some chain →
    ∀ n < chain.index, s.skipped.Has (r, n) ∨ other (r, n)

variable {s : State} {other : PublicKey × UInt32 → Prop}

theorem Accounts.congr {t : State} (h : s.Accounts other) (hr : t.receivers = s.receivers)
    (hs : t.skipped = s.skipped) : t.Accounts other := by
  intro r chain hold n hn
  rw [receiverChain?_congr hr] at hold
  rw [hs]
  exact h r chain hold n hn

theorem Accounts.mono {more : PublicKey × UInt32 → Prop} (h : s.Accounts other)
    (hmore : ∀ name, other name → more name) : s.Accounts more :=
  fun r chain hold n hn => (h r chain hold n hn).imp_right (hmore _)

theorem Accounts.expire (h : s.Accounts other) (c : Config) (now : UInt64) :
    (s.expire c now).Accounts fun name => other name ∨
      name ∈ (s.expiring c now).map SkippedKey.name := by
  intro r chain hold n hn
  rw [receiverChain?_expire] at hold
  rcases h r chain hold n hn with hcached | hother
  · exact (has_expire hcached).imp_right .inr
  · exact .inr (.inl hother)

/-- The chains that are kept are not among those dropped. -/
theorem notMem_dropped (h : s.Coherent) {bound : Nat} {ch : ReceiverChain}
    (hch : ch ∈ s.receivers.drop (s.excess bound)) : ch.ratchetKey ∉ s.dropped bound := by
  have hd := h.chains
  rw [← List.take_append_drop (s.excess bound) s.receivers, List.map_append,
    List.nodup_append] at hd
  intro hmem
  exact hd.2.2 _ hmem _ (List.mem_map_of_mem hch) rfl

variable [Suite]

/-- The entries that are evicted when the keys of successive links are cached. -/
def evictedLinks (capacity : Nat) (now : UInt64) (r : PublicKey) :
    (count : Nat) → ChainKey → SkippedKeys → List SkippedKey
  | 0, _, _ => []
  | count + 1, chain, c => c.evicted r chain.messageKeys now capacity ++
      evictedLinks capacity now r count chain.next (c.insert r chain.messageKeys now capacity).2

/-- What was cached before or belongs to one of the links is cached afterwards, or evicted. -/
theorem has_cacheAll_or_evicted {capacity : Nat} {now : UInt64} {r : PublicKey} {count : Nat}
    {chain : ChainKey} {c : SkippedKeys} {name : PublicKey × UInt32}
    (h : c.Has name ∨ ∃ i < count, name = (r, (chain.advance i).index)) :
    (cacheAll capacity now r count chain c).Has name ∨
      name ∈ (evictedLinks capacity now r count chain c).map SkippedKey.name := by
  induction count generalizing chain c with
  | zero =>
    rcases h with h | ⟨i, hi, -⟩
    · exact .inl h
    · exact absurd hi (Nat.not_lt_zero i)
  | succ count ih =>
    rw [evictedLinks, List.map_append, List.mem_append]
    have hfirst : c.Has name ∨ name = (r, chain.messageKeys.counter) ∨
        ∃ i < count, name = (r, (chain.next.advance i).index) := by
      rcases h with h | ⟨_ | i, hi, hname⟩
      · exact .inl h
      · exact .inr (.inl hname)
      · exact .inr (.inr ⟨i, by omega, hname⟩)
    rw [← or_assoc] at hfirst
    rcases hfirst with hfirst | hlater
    · rcases SkippedKeys.has_insert_or_evicted capacity hfirst with hkept | hgone
      · rcases ih (.inl hkept) with h | h
        · exact .inl h
        · exact .inr (.inr h)
      · exact .inr (.inl hgone)
    · rcases ih (.inr hlater) with h | h
      · exact .inl h
      · exact .inr (.inr h)

/-- The messages whose keys are lost when a message is read. -/
def losses (c : Config) (now : UInt64) (s : State) (m : RatchetMessage)
    (e : Entropy) : List (PublicKey × UInt32) :=
  (s.expiring c now).map SkippedKey.name ++
    match (outcome ((s.expire c now).receivingChain c m.ratchetKey) e).1 with
    | .error _ => []
    | .ok (chain, ready) =>
      if m.counter < chain.index then []
      else (evictedLinks c.maxSkippedKeys now m.ratchetKey (m.counter - chain.index).toNat chain
        ready.skipped).map SkippedKey.name

/-- The chain that a ratchet step adds is at its start, and the others keep their entries. -/
theorem Accounts.ready {c : Config} {t : State} {their : PublicKey} {e e' : Entropy}
    {chain : ChainKey} (h : s.Accounts other) (hs : s.Coherent)
    (hr : Ready c s their e chain t e') : t.Accounts other := by
  cases hr with
  | held => exact h
  | stepped new receive send =>
    intro r ch hold n hn
    rcases mem_ratcheted_receivers.mp (mem_of_receiverChain? hold) with hmem | heq
    · have hheld := receiverChain?_of_mem hs.chains (List.mem_of_mem_drop hmem)
      rcases h r ch hheld n hn with ⟨entry, hentry, hname⟩ | hother
      · refine .inl ⟨entry, mem_ratcheted_entries.mpr ⟨hentry, ?_⟩, hname⟩
        rw [(Prod.mk.inj hname).1]
        exact notMem_dropped hs hmem
      · exact .inr hother
    · obtain ⟨-, rfl⟩ := ReceiverChain.mk.inj heq
      rw [RootKey.createChain_index receive, UInt32.lt_iff_toNat_lt] at hn
      exact absurd hn (Nat.not_lt_zero _)

omit [Suite] in
/-- Only the entry that is erased goes out of account. -/
theorem Accounts.erase {their : PublicKey} {k : UInt32} (h : s.Accounts other) :
    Accounts { s with skipped := s.skipped.erase their k } fun name => other name ∨
      name = (their, k) := by
  intro r chain hheld n hn
  rcases h r chain hheld n hn with hcached | hother
  · exact (SkippedKeys.has_erase hcached).imp_right .inr
  · exact .inr (.inl hother)

/-- A number between a link and a later one is that of a link in between. -/
theorem exists_advance_index {chain : ChainKey} {n : UInt32} {jump : Nat}
    (hn : chain.index.toNat ≤ n.toNat) (hlt : n.toNat < chain.index.toNat + jump) :
    ∃ i < jump, n = (chain.advance i).index := by
  have hsize := toNat_lt_size n
  have hindex : (chain.advance (n.toNat - chain.index.toNat)).index.toNat =
      chain.index.toNat + (n.toNat - chain.index.toNat) := ChainKey.advance_index_toNat (by omega)
  exact ⟨n.toNat - chain.index.toNat, by omega, UInt32.toNat_inj.mp (by omega)⟩

/-- The numbers that a chain jumps over are cached or evicted, and the last one is used. -/
theorem Accounts.jumped {c : Config} {now : UInt64} {their : PublicKey} {chain : ChainKey}
    {k : UInt32} {jump : Nat} (h : s.Accounts other) (hs : s.Coherent)
    (hold : s.receiverChain? their = some chain) (hk : k.toNat = chain.index.toNat + jump)
    (hsize : k.toNat + 1 < UInt32.size) :
    (s.jumped c now their chain jump).Accounts fun name => (other name ∨ name = (their, k)) ∨
      name ∈ (evictedLinks c.maxSkippedKeys now their jump chain s.skipped).map
        SkippedKey.name := by
  intro r ch hheld n hn
  have hcache : s.skipped.Has (r, n) ∨ (∃ i < jump, (r, n) = (their, (chain.advance i).index)) →
      (s.jumped c now their chain jump).skipped.Has (r, n) ∨
        (r, n) ∈ (evictedLinks c.maxSkippedKeys now their jump chain s.skipped).map
          SkippedKey.name :=
    has_cacheAll_or_evicted
  by_cases hr : r = their
  · subst hr
    rw [receiverChain?_jumped_self hs hold] at hheld
    obtain rfl := Option.some_inj.mp hheld
    rw [UInt32.lt_iff_toNat_lt, index_jumped (by omega)] at hn
    by_cases hbehind : n < chain.index
    · rcases h r chain hold n hbehind with hcached | hother
      · exact (hcache (.inl hcached)).imp_right .inr
      · exact .inr (.inl (.inl hother))
    · rw [UInt32.lt_iff_toNat_lt, Nat.not_lt] at hbehind
      by_cases hlast : n = k
      · exact .inr (.inl (.inr (congrArg (Prod.mk r) hlast)))
      · have hne : n.toNat ≠ k.toNat := fun heq => hlast (UInt32.toNat_inj.mp heq)
        have hbetween : ∃ i < jump, n = (chain.advance i).index :=
          exists_advance_index hbehind (by omega)
        obtain ⟨i, hi, hlink⟩ := hbetween
        exact (hcache (.inr ⟨i, hi, congrArg (Prod.mk r) hlink⟩)).imp_right .inr
  · rw [receiverChain?_jumped_of_ne hs hr] at hheld
    rcases h r ch hheld n hn with hcached | hother
    · exact (hcache (.inl hcached)).imp_right .inr
    · exact .inr (.inl (.inl hother))

/-- Beside the message that is read, only what is evicted on the way to it goes out of account. -/
theorem Accounts.supplied {c : Config} {now : UInt64} {t : State} {their : PublicKey}
    {chain : ChainKey} {k : UInt32} {keys : MessageKeys} (h : s.Accounts other) (hs : s.Coherent)
    (hold : s.receiverChain? their = some chain) (hk : Supplied c now s their chain k keys t) :
    t.Accounts fun name => (other name ∨ name = (their, k)) ∨
      name ∈ if k < chain.index then [] else
        (evictedLinks c.maxSkippedKeys now their (k - chain.index).toNat chain s.skipped).map
          SkippedKey.name := by
  cases hk with
  | cached behind take =>
    obtain ⟨-, rfl⟩ := SkippedKeys.take?_eq_some take
    exact h.erase.mono fun name hname => .inl hname
  | reached ahead near short =>
    obtain ⟨hk, hsize⟩ := toNat_eq_add_jump ahead short
    simp only [if_neg ahead]
    exact h.jumped hs hold hk hsize

/-- A reading accounts for the message read and for its losses. -/
theorem Accounts.reads {c : Config} {now : UInt64} {m : RatchetMessage} {e e' : Entropy}
    {plain : Bytes} {after : State} (h : s.Accounts other) (hs : s.Coherent)
    (hr : s.Reads c now m e plain after e') :
    after.Accounts fun name => other name ∨ name = (m.ratchetKey, m.counter) ∨
      name ∈ s.losses c now m e := by
  obtain ⟨-, chain, ready, keys, taken, hready, hkeys, -, -, rfl⟩ := hr
  obtain ⟨hcoherent, hold⟩ := (hs.expire c now).ready hready
  have hsupply := (keysAt_ok hcoherent.chains hold).mp hkeys
  have hlosses : s.losses c now m e = (s.expiring c now).map SkippedKey.name ++
      if m.counter < chain.index then [] else (evictedLinks c.maxSkippedKeys now m.ratchetKey
        (m.counter - chain.index).toNat chain ready.skipped).map SkippedKey.name := by
    rw [losses, receivingChain_ok.mpr hready]
  have haccounts :=
    ((h.expire c now).ready (hs.expire c now) hready).supplied hcoherent hold hsupply
  refine Accounts.congr (s := taken) (haccounts.mono fun name hname => ?_) rfl rfl
  rw [hlosses, List.mem_append]
  rcases hname with ((hother | hexpired) | hread) | hevicted
  · exact .inl hother
  · exact .inr (.inr (.inl hexpired))
  · exact .inr (.inl hread)
  · exact .inr (.inr (.inr hevicted))

end State

end DoubleRatchet
