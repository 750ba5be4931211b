import DoubleRatchet.Proofs.Session.Agreement

/-!
# Chains and their origins

Every receiver chain has a start, at index zero: its link is as many steps on
as its index says, and the keys cached for it are those of earlier links. The
chains and the cached keys of a state stay within the bounds it is used with.
-/
namespace DoubleRatchet.State

theorem size_cacheAll_le [Suite] {capacity : Nat} {now : UInt64} {r : PublicKey} {count : Nat}
    {chain : ChainKey} {c : SkippedKeys} (h : c.size ≤ capacity) :
    (cacheAll capacity now r count chain c).size ≤ capacity := by
  induction count generalizing chain c with
  | zero => exact h
  | succ count ih => exact ih (SkippedKeys.size_insert_le _ _ _ _ _)

/-- Whatever was held before, a ratchet step leaves no more chains than allowed. -/
theorem length_ratcheted_receivers (c : Config) (s : State) (their : PublicKey)
    (chain sending : ChainKey) (root : RootKey) (fresh : KeyPair) :
    (s.ratcheted c their chain root fresh sending).receivers.length ≤
      max 1 c.maxReceiverChains := by
  simp only [ratcheted, excess, List.length_append, List.length_drop, List.length_singleton]
  omega

variable [Suite]

/-- A receiver chain has come from a start, and so have the keys cached for it. -/
structure Origin (s : State) (ch : ReceiverChain) (start : ChainKey) : Prop where
  index : start.index = 0
  link : ch.chain = start.advance ch.chain.index.toNat
  keys : ∀ e ∈ s.skipped.entries, e.ratchetKey = ch.ratchetKey →
    e.keys = (start.advance e.keys.counter.toNat).messageKeys

/-- A coherent state within its bounds, each receiver chain of which has an origin. -/
structure WellKept (c : Config) (s : State) : Prop extends Coherent s where
  chainCount : s.receivers.length ≤ max 1 c.maxReceiverChains
  cacheSize : s.skipped.size ≤ c.maxSkippedKeys
  origin : ∀ ch ∈ s.receivers, ∃ start, s.Origin ch start

/-- An origin stays one as long as nothing is cached for the chain. -/
theorem Origin.mono {s t : State} {ch : ReceiverChain} {start : ChainKey} (h : s.Origin ch start)
    (hs : ∀ e ∈ t.skipped.entries, e.ratchetKey = ch.ratchetKey → e ∈ s.skipped.entries) :
    t.Origin ch start :=
  ⟨h.index, h.link, fun e he hr => h.keys e (hs e he hr) hr⟩

/-- A chain at index zero for which nothing is cached is its own origin. -/
theorem origin_self {s : State} {ch : ReceiverChain} (h : ch.chain.index = 0)
    (hs : ∀ e ∈ s.skipped.entries, e.ratchetKey ≠ ch.ratchetKey) : s.Origin ch ch.chain :=
  ⟨h, by simp [h], fun e he hr => absurd hr (hs e he)⟩

theorem New.wellKept {s : State} (h : s.New) (c : Config) : s.WellKept c := by
  have hone : 1 ≤ max 1 c.maxReceiverChains := Nat.le_max_left _ _
  refine ⟨h.coherent, ?_, by simp [h.skipped, SkippedKeys.size], fun ch hch => ⟨ch.chain, ?_⟩⟩
  · rcases h.receivers with hr | ⟨ch, hr, -⟩ <;> simp [hr, hone]
  · rcases h.receivers with hr | ⟨first, hr, hindex⟩
    · simp [hr] at hch
    · rw [hr, List.mem_singleton] at hch
      exact origin_self (hch ▸ hindex) (by simp [h.skipped])

namespace WellKept

variable {c : Config} {s : State}

/-- Only what a state holds of its peer counts. -/
theorem congr {t : State} (h : s.WellKept c) (hr : t.receivers = s.receivers)
    (hs : t.skipped = s.skipped) :
    t.WellKept c := by
  refine ⟨h.toCoherent.congr hr hs, hr ▸ h.chainCount, hs ▸ h.cacheSize, fun ch hch => ?_⟩
  obtain ⟨start, hstart⟩ := h.origin ch (hr ▸ hch)
  exact ⟨start, hstart.mono fun e he _ => hs ▸ he⟩

/-- Cached keys may go. -/
theorem shrink {t : State} (h : s.WellKept c) (hr : t.receivers = s.receivers)
    (hs : t.skipped.entries.Sublist s.skipped.entries) : t.WellKept c := by
  refine ⟨h.toCoherent.shrink hr (h.distinct.sublist hs) hs.subset, hr ▸ h.chainCount,
    Nat.le_trans hs.length_le h.cacheSize, fun ch hch => ?_⟩
  obtain ⟨start, hstart⟩ := h.origin ch (hr ▸ hch)
  exact ⟨start, hstart.mono fun e he _ => hs.subset he⟩

theorem expire (h : s.WellKept c) (now : UInt64) : (s.expire c now).WellKept c :=
  h.shrink (expire_receivers c now s) (expire_sublist c now s)

/-- A ratchet step adds a chain at its start, for which nothing is cached. -/
theorem ratcheted {their : PublicKey} {chain sending : ChainKey} {root : RootKey} {fresh : KeyPair}
    (h : s.WellKept c) (new : s.receiverChain? their = none) (hindex : chain.index = 0) :
    (s.ratcheted c their chain root fresh sending).WellKept c := by
  have hkeep := SkippedKeys.purgeAll_sublist (s.dropped c.maxReceiverChains) s.skipped
  refine ⟨h.toCoherent.ratcheted new, length_ratcheted_receivers c s their chain sending root fresh,
    Nat.le_trans hkeep.length_le h.cacheSize, fun ch hch => ?_⟩
  rcases mem_ratcheted_receivers.mp hch with hold | rfl
  · obtain ⟨start, hstart⟩ := h.origin ch (List.mem_of_mem_drop hold)
    exact ⟨start, hstart.mono fun e he _ => (mem_ratcheted_entries.mp he).1⟩
  · refine ⟨chain, origin_self hindex fun e he hr => ?_⟩
    obtain ⟨ch, hch, hkey, -⟩ := h.behind e (mem_ratcheted_entries.mp he).1
    exact receiverChain?_eq_none.mp new ch hch (hkey.trans hr)

/-- A jump moves its chain on from the same start, and caches keys of links on the way. -/
theorem jumped {their : PublicKey} {chain : ChainKey} {jump : Nat} (h : s.WellKept c) (now : UInt64)
    (hold : s.receiverChain? their = some chain)
    (hsize : chain.index.toNat + jump + 1 < UInt32.size) :
    (s.jumped c now their chain jump).WellKept c := by
  refine ⟨h.toCoherent.jumped hold hsize, ?_, size_cacheAll_le h.cacheSize, fun ch hch => ?_⟩
  · change (moved their _ s.receivers).length ≤ _
    rw [moved, List.length_map]
    exact h.chainCount
  rcases mem_moved hch with rfl | ⟨hmem, hne⟩
  · obtain ⟨start, hstart⟩ := h.origin _ (mem_of_receiverChain? hold)
    have hlink : chain = start.advance chain.index.toNat := hstart.link
    have hon : ∀ i, chain.advance i = start.advance (chain.index.toNat + i) := by
      intro i
      rw [ChainKey.advance_add, ← hlink]
    refine ⟨start, hstart.index, ?_, fun e he hr => ?_⟩
    · rw [index_jumped hsize]
      exact hon (jump + 1)
    · rcases mem_cacheAll he with he | ⟨i, hi, rfl⟩
      · exact hstart.keys e he hr
      · have hi' : (chain.advance i).index.toNat = chain.index.toNat + i :=
          ChainKey.advance_index_toNat (by omega)
        rw [ChainKey.messageKeys_counter, hi', hon]
  · obtain ⟨start, hstart⟩ := h.origin ch hmem
    refine ⟨start, hstart.mono fun e he hr => ?_⟩
    rcases mem_cacheAll he with he | ⟨i, -, rfl⟩
    · exact he
    · exact absurd hr.symm hne

theorem supplied {now : UInt64} {t : State} {their : PublicKey} {chain : ChainKey} {n : UInt32}
    {keys : MessageKeys} (h : s.WellKept c) (hold : s.receiverChain? their = some chain)
    (hk : Supplied c now s their chain n keys t) : t.WellKept c := by
  cases hk with
  | cached behind take =>
    obtain ⟨-, rfl⟩ := SkippedKeys.take?_eq_some take
    exact h.shrink rfl List.eraseP_sublist
  | reached ahead near short =>
    obtain ⟨hn, hsize⟩ := toNat_eq_add_jump ahead short
    exact h.jumped now hold (by omega)

theorem ready {t : State} {their : PublicKey} {e e' : Entropy} {chain : ChainKey} (h : s.WellKept c)
    (hr : Ready c s their e chain t e') : t.WellKept c := by
  cases hr with
  | held => exact h
  | stepped new receive => exact h.ratcheted new (RootKey.createChain_index receive)

theorem reads {now : UInt64} {after : State} {m : RatchetMessage} {e e' : Entropy} {plain : Bytes}
    (h : s.WellKept c) (hr : s.Reads c now m e plain after e') : after.WellKept c := by
  obtain ⟨-, chain, ready, keys, taken, hready, hkeys, -, -, rfl⟩ := hr
  obtain ⟨hcoherent, hold⟩ := (h.expire now).toCoherent.ready hready
  have hsupply := (keysAt_ok hcoherent.chains hold).mp hkeys
  exact (((h.expire now).ready hready).supplied hold hsupply).congr rfl rfl

theorem encrypt {t : State} {plain : Bytes} {m : Message} (h : s.WellKept c)
    (hm : s.encrypt plain = .ok (m, t)) :
    t.WellKept c := by
  obtain ⟨-, -, rfl⟩ := encrypt_ok.mp hm
  exact h.congr rfl rfl

end WellKept

end DoubleRatchet.State
