import DoubleRatchet.Proofs.Session.Agreement
import DoubleRatchet.Proofs.Session.Losses
import DoubleRatchet.Proofs.Session.Receipts
import Mathlib.Algebra.Ring.Nat

/-!
# Retention of cached keys

The cache and the receiver chains are queues within bounds: what is new comes
last, and what is beyond the bound goes from the front. An item is therefore
safe as long as few items stand behind it. A cached key stays in the cache
until it is taken, as many keys as the cache holds were cached after it, as many
chains as a state holds were added after its own, or it is stale when a message
is read.
-/
namespace DoubleRatchet

section Queue

variable {α : Type} {l l' : List α} {a b : α} {k : Nat}

/-- An item of a queue has at most a number of newer items behind it. -/
def Within (l : List α) (a : α) (k : Nat) : Prop :=
  ∃ front back, l = front ++ a :: back ∧ back.length ≤ k

theorem Within.mem (h : Within l a k) : a ∈ l := by
  obtain ⟨front, back, rfl, -⟩ := h
  simp

theorem Within.mono {n : Nat} (h : Within l a k) (hn : k ≤ n) : Within l a n := by
  obtain ⟨front, back, heq, hlen⟩ := h
  exact ⟨front, back, heq, Nat.le_trans hlen hn⟩

theorem within_append_self (l : List α) (a : α) : Within (l ++ [a]) a 0 :=
  ⟨l, [], rfl, Nat.le_refl 0⟩

theorem Within.append (h : Within l a k) (b : α) : Within (l ++ [b]) a (k + 1) := by
  obtain ⟨front, back, rfl, hlen⟩ := h
  exact ⟨front, back ++ [b], by simp, by simpa using hlen⟩

/-- Whatever leaves the queue, an item that stays is no further from its end. -/
theorem Within.sublist (h : Within l a k) (hd : l.Nodup) (hs : l'.Sublist l) (ha : a ∈ l') :
    Within l' a k := by
  obtain ⟨front, back, rfl, hlen⟩ := h
  obtain ⟨front', back', rfl⟩ := List.append_of_mem ha
  refine ⟨front', back', rfl, Nat.le_trans (List.Sublist.length_le ?_) hlen⟩
  have hfront : a ∉ front := by
    rw [List.nodup_append] at hd
    exact fun hmem => hd.2.2 a hmem a List.mem_cons_self rfl
  obtain ⟨first, second, hsplit, hfirst, hsecond⟩ :=
    List.sublist_append_iff.mp ((List.sublist_append_right front' (a :: back')).trans hs)
  cases first with
  | nil =>
    rw [List.nil_append] at hsplit
    rw [← hsplit] at hsecond
    exact List.cons_sublist_cons.mp hsecond
  | cons x first =>
    obtain ⟨rfl, -⟩ := List.cons.inj hsplit
    exact absurd (hfirst.subset List.mem_cons_self) hfront

/-- An item goes from the front only with a full queue behind it. -/
theorem Within.drop_excess (h : Within l a k) (bound : Nat) :
    Within (l.drop (l.length - bound)) a k ∨ bound ≤ k := by
  obtain ⟨front, back, rfl, hlen⟩ := h
  by_cases hfront : (front ++ a :: back).length - bound ≤ front.length
  · refine .inl ⟨front.drop ((front ++ a :: back).length - bound), back, ?_, hlen⟩
    rw [List.drop_append_of_le_length hfront]
  · simp only [List.length_append, List.length_cons] at hfront
    exact .inr (by omega)

/-- When one more item comes into a queue of distinct ones, every item that stays has
one more behind it. -/
theorem within_drop_append [DecidableEq α] {older : α → Nat} (hd : (l ++ [b]).Nodup)
    (hl : ∀ x ∈ l, Within l x (older x)) {n : Nat} (ha : a ∈ (l ++ [b]).drop n) :
    Within ((l ++ [b]).drop n) a (if b = a then 0 else older a + 1) := by
  apply Within.sublist _ hd (List.drop_sublist n _) ha
  rcases List.mem_append.mp (List.mem_of_mem_drop ha) with hold | hself
  · have hne : b ≠ a :=
      fun heq => List.disjoint_of_nodup_append hd hold (heq ▸ List.mem_singleton_self b)
    rw [if_neg hne]
    exact (hl a hold).append b
  · rw [List.mem_singleton.mp hself, if_pos rfl]
    exact within_append_self l b

end Queue

namespace SkippedKeys

variable {c : SkippedKeys} {entry : SkippedKey} {k capacity : Nat} {r : PublicKey}
  {keys : MessageKeys} {storedAt : UInt64}

theorem Distinct.nodup (h : c.Distinct) : c.entries.Nodup := List.Nodup.of_map _ h

/-- The entry for other keys is one further from the end when keys are cached. -/
theorem within_insert (h : Within c.entries entry k) (hd : c.Distinct)
    (hname : entry.name ≠ (r, keys.counter)) (storedAt : UInt64) (capacity : Nat) :
    Within (c.insert r keys storedAt capacity).2.entries entry (k + 1) ∨ capacity ≤ k + 1 := by
  have herase : Within (c.erase r keys.counter).entries entry k :=
    h.sublist hd.nodup List.eraseP_sublist (mem_erase_of_ne h.mem hname)
  exact (herase.append ⟨r, keys, storedAt⟩).drop_excess capacity

/-- Keys that are cached stand at the end, unless nothing may be cached at all. -/
theorem within_insert_self (c : SkippedKeys) (r : PublicKey) (keys : MessageKeys)
    (storedAt : UInt64) (capacity : Nat) :
    Within (c.insert r keys storedAt capacity).2.entries ⟨r, keys, storedAt⟩ 0 ∨ capacity ≤ 0 :=
  (within_append_self (c.erase r keys.counter).entries _).drop_excess capacity

end SkippedKeys

namespace State

section Cache

variable [Suite] {k : Nat} {r : PublicKey} {chain : ChainKey} {c : SkippedKeys} {entry : SkippedKey}

/-- The entry for a message that is not on the way is further from the end by the
length of a jump. -/
theorem within_cacheAll {count : Nat} (h : Within c.entries entry k) (hd : c.Distinct)
    (hname : ∀ i < count, entry.name ≠ (r, (chain.advance i).index)) (now : UInt64)
    (capacity : Nat) :
    Within (cacheAll capacity now r count chain c).entries entry (k + count) ∨
      capacity ≤ k + count := by
  induction count generalizing chain c k with
  | zero => exact .inl h
  | succ count ih =>
    have hfirst : entry.name ≠ (r, chain.messageKeys.counter) := hname 0 (by omega)
    rcases SkippedKeys.within_insert h hd hfirst now capacity with hkept | hfull
    · have hrest :=
        ih hkept (hd.insert r chain.messageKeys now capacity) fun i hi => hname (i + 1) (by omega)
      rwa [Nat.add_right_comm, Nat.add_assoc] at hrest
    · exact .inr (by omega)

/-- Each key of a jump has those of the later links behind it. -/
theorem within_cacheAll_link {count i : Nat} (hd : c.Distinct)
    (hsize : chain.index.toNat + count < UInt32.size) (hi : i < count) (r : PublicKey)
    (now : UInt64) (capacity : Nat) :
    Within (cacheAll capacity now r count chain c).entries
        ⟨r, (chain.advance i).messageKeys, now⟩ (count - (i + 1)) ∨
      capacity ≤ count - (i + 1) := by
  induction count generalizing chain c i with
  | zero => omega
  | succ count ih =>
    have hnext : chain.next.index.toNat = chain.index.toNat + 1 :=
      ChainKey.advance_index_toNat (n := 1) (by omega)
    have hd' := hd.insert r chain.messageKeys now capacity
    cases i with
    | zero =>
      rcases SkippedKeys.within_insert_self c r chain.messageKeys now capacity with hlast | hnone
      · have hother : ∀ j < count, (⟨r, chain.messageKeys, now⟩ : SkippedKey).name ≠
            (r, (chain.next.advance j).index) := by
          intro j hj heq
          have hj' : (chain.next.advance j).index.toNat = chain.next.index.toNat + j :=
            ChainKey.advance_index_toNat (by omega)
          have hindex : chain.index = (chain.next.advance j).index := (Prod.mk.inj heq).2
          rw [← hindex] at hj'
          omega
        have hrest := within_cacheAll hlast hd' hother now capacity
        rwa [Nat.zero_add] at hrest
      · exact .inr (by omega)
    | succ i =>
      rw [Nat.add_sub_add_right]
      exact ih hd' (by omega) (by omega)

end Cache

/-- A cached key stays where it is and so does its chain, each with at most a number
of newer ones behind it. -/
structure Retains (s : State) (entry : SkippedKey) (k p : Nat) : Prop where
  cached : Within s.skipped.entries entry k
  chain : Within (s.receivers.map ReceiverChain.ratchetKey) entry.ratchetKey p

end State

/-- One message adds one chain or none. -/
theorem Receipt.countP_added (v : Receipt) : [v].countP Receipt.added = v.added.toNat := by
  cases hv : v.added <;> simp [hv]

/-- Why a cached key may be gone, from the receipts of what was read since it was
cached. `k` keys and `p` chains were newer than it and its chain to begin with. -/
inductive SkippedKey.Lost (c : Config) (entry : SkippedKey) (k p : Nat)
    (history : List Receipt) : Prop
  | taken {v : Receipt} (mem : v ∈ history) (taken : v.taken = true) (name : v.name = entry.name)
  | evicted (full : c.maxSkippedKeys ≤ k + (history.map Receipt.cached).sum)
  | dropped (many : max 1 c.maxReceiverChains ≤ p + history.countP Receipt.added)
  | expired {v : Receipt} (mem : v ∈ history) (stale : entry.Stale c v.now)

namespace State

section Step

variable {c : Config} {now : UInt64} {s t : State} {entry : SkippedKey} {k p : Nat}
  {their : PublicKey} {chain sending : ChainKey} {root : RootKey} {fresh : KeyPair}

/-- The ratchet keys of the chains are a queue within the bound. -/
theorem ratchetKeys_ratcheted (c : Config) (s : State) (their : PublicKey) (chain : ChainKey)
    (root : RootKey) (fresh : KeyPair) (sending : ChainKey) :
    (s.ratcheted c their chain root fresh sending).receivers.map ReceiverChain.ratchetKey =
      (s.receivers.map ReceiverChain.ratchetKey ++ [their]).drop
      ((s.receivers.map ReceiverChain.ratchetKey ++ [their]).length -
        max c.maxReceiverChains 1) := by
  have hle :
      (s.receivers.map ReceiverChain.ratchetKey ++ [their]).length - max c.maxReceiverChains 1 ≤
      (s.receivers.map ReceiverChain.ratchetKey).length := by
    rw [List.length_append, List.length_singleton]
    omega
  rw [List.drop_append_of_le_length hle]
  simp [ratcheted, excess]

/-- A ratchet key that is new has no chain. -/
theorem notMem_of_new (new : s.receiverChain? their = none) :
    their ∉ s.receivers.map ReceiverChain.ratchetKey := by
  rw [← hasReceiverChain_iff, hasReceiverChain, new]
  simp

/-- A ratchet step puts the chain of a key one further from the end, or drops it. -/
theorem Retains.ratcheted (h : s.Retains entry k p) (hs : s.Coherent)
    (new : s.receiverChain? their = none) :
    (s.ratcheted c their chain root fresh sending).Retains entry k (p + 1) ∨
      max 1 c.maxReceiverChains ≤ p + 1 := by
  have hchain := (h.chain.append their).drop_excess (max c.maxReceiverChains 1)
  rw [← ratchetKeys_ratcheted c s their chain root fresh sending,
    Nat.max_comm c.maxReceiverChains] at hchain
  refine hchain.imp_left fun hkept => ⟨?_, hkept⟩
  obtain ⟨ch, hch, hkey⟩ := List.mem_map.mp hkept.mem
  have hne : entry.ratchetKey ≠ their := by
    intro heq
    exact notMem_of_new new (heq ▸ h.chain.mem)
  have hundropped : entry.ratchetKey ∉ s.dropped c.maxReceiverChains := by
    rcases mem_ratcheted_receivers.mp hch with hmem | rfl
    · exact hkey ▸ notMem_dropped hs hmem
    · exact absurd hkey.symm hne
  exact h.cached.sublist hs.distinct.nodup (SkippedKeys.purgeAll_sublist _ _)
    (mem_ratcheted_entries.mpr ⟨h.cached.mem, hundropped⟩)

variable [Suite]

theorem Retains.ready {e e' : Entropy} (h : s.Retains entry k p) (hs : s.Coherent)
    (hr : Ready c s their e chain t e') :
    t.Retains entry k (p + (!s.hasReceiverChain their).toNat) ∨
      max 1 c.maxReceiverChains ≤ p + (!s.hasReceiverChain their).toNat := by
  cases hr with
  | held hold => exact .inl (by simpa [hasReceiverChain, hold] using h)
  | stepped new => simpa [hasReceiverChain, new] using h.ratcheted hs new

/-- The message that takes a key is the only one that does; a jump puts it further from the end. -/
theorem Retains.supplied {n : UInt32} {keys : MessageKeys} (h : s.Retains entry k p)
    (hs : s.Coherent) (hold : s.receiverChain? their = some chain)
    (hk : Supplied c now s their chain n keys t) :
    t.Retains entry (k + (n.toNat - chain.index.toNat)) p ∨
      n < chain.index ∧ (their, n) = entry.name ∨
      c.maxSkippedKeys ≤ k + (n.toNat - chain.index.toNat) := by
  cases hk with
  | cached behind take =>
    obtain ⟨-, rfl⟩ := SkippedKeys.take?_eq_some take
    by_cases hname : entry.name = (their, n)
    · exact .inr (.inl ⟨behind, hname.symm⟩)
    · have hstays := h.cached.sublist hs.distinct.nodup List.eraseP_sublist
        (SkippedKeys.mem_erase_of_ne h.cached.mem hname)
      exact .inl ⟨hstays.mono (Nat.le_add_right _ _), h.chain⟩
  | reached ahead near short =>
    rw [← toNat_sub ahead]
    obtain ⟨hn, hsize⟩ := toNat_eq_add_jump ahead short
    have hother : ∀ i < (n - chain.index).toNat, entry.name ≠ (their, (chain.advance i).index) := by
      intro i hi hname
      obtain ⟨hkey, hcounter⟩ := Prod.mk.inj hname
      obtain ⟨own, hown, hlt⟩ := hs.past h.cached.mem
      rw [hkey, hold] at hown
      have hi' : (chain.advance i).index.toNat = chain.index.toNat + i :=
        ChainKey.advance_index_toNat (by omega)
      rw [← Option.some_inj.mp hown, hcounter, UInt32.lt_iff_toNat_lt, hi'] at hlt
      omega
    rcases within_cacheAll h.cached hs.distinct hother now c.maxSkippedKeys with hkept | hfull
    · refine .inl ⟨hkept, ?_⟩
      simpa only [jumped, ratchetKeys_moved] using h.chain
    · exact .inr (.inr hfull)

/-- What becomes of a cached key when a message is read. -/
theorem Retains.reads {m : RatchetMessage} {e e' : Entropy} {plain : Bytes}
    (h : s.Retains entry k p) (hs : s.Coherent) (hr : s.Reads c now m e plain t e') :
    t.Retains entry (k + (s.receipt now m).cached) (p + (s.receipt now m).added.toNat) ∨
      entry.Lost c k p [s.receipt now m] := by
  obtain ⟨chain, ready, taken, hphases, rfl⟩ := hs.phases hr
  obtain ⟨keys, hsupplied⟩ := hphases.supplied
  by_cases hstale : entry.Stale c now
  · exact .inr (.expired (List.mem_singleton_self _) hstale)
  have hfresh : (s.expire c now).Retains entry k p := by
    refine ⟨h.cached.sublist hs.distinct.nodup (expire_sublist c now s)
      (mem_expire_iff.mpr ⟨h.cached.mem, hstale⟩), ?_⟩
    rw [expire_receivers]
    exact h.chain
  have hready := hfresh.ready (hs.expire c now) hphases.stands
  rw [hasReceiverChain_expire] at hready
  rcases hready with hready | hmany
  · rw [receipt, ← hphases.index]
    rcases hready.supplied hphases.coherent hphases.hold hsupplied with
      hkept | ⟨hbehind, hname⟩ | hfull
    · exact .inl ⟨hkept.cached, hkept.chain⟩
    · exact .inr (.taken (List.mem_singleton_self _) (decide_eq_true hbehind) hname)
    · exact .inr (.evicted (by simpa using hfull))
  · exact .inr (.dropped (by rwa [Receipt.countP_added]))

end Step

end State

/-- Bounds fit together when a chain may be held and a jump fits the cache. -/
theorem Config.validate_ok {c : Config} :
    c.validate = .ok () ↔ c.maxReceiverChains ≠ 0 ∧ c.maxForwardJump.toNat ≤ c.maxSkippedKeys := by
  unfold validate
  split
  · next hnone => simp [hnone]
  · next hsome => split <;> simp [hsome] <;> omega

section Run

variable {c : Config} {entry : SkippedKey} {k p : Nat} {h h' : List Receipt}

theorem SkippedKey.Lost.append (hl : entry.Lost c k p h) (h' : List Receipt) :
    entry.Lost c k p (h ++ h') := by
  cases hl with
  | taken mem taken name => exact .taken (List.mem_append_left _ mem) taken name
  | evicted full => exact .evicted (by rw [List.map_append, List.sum_append]; omega)
  | dropped many => exact .dropped (by rw [List.countP_append]; omega)
  | expired mem stale => exact .expired (List.mem_append_left _ mem) stale

/-- What is lost later is lost, with what was newer by then. -/
theorem SkippedKey.Lost.later
    (hl : entry.Lost c (k + (h.map Receipt.cached).sum) (p + h.countP Receipt.added) h') :
    entry.Lost c k p (h ++ h') := by
  cases hl with
  | taken mem taken name => exact .taken (List.mem_append_right _ mem) taken name
  | evicted full => exact .evicted (by rw [List.map_append, List.sum_append]; omega)
  | dropped many => exact .dropped (by rw [List.countP_append]; omega)
  | expired mem stale => exact .expired (List.mem_append_right _ mem) stale

/-- How many chains were added after the one of a ratchet key; to start with none was. -/
def chainsSince (r : PublicKey) (history : List Receipt) : Nat :=
  history.foldl (fun n v => if v.added then if v.ratchetKey = r then 0 else n + 1 else n) 0

theorem chainsSince_append (r : PublicKey) (history : List Receipt) (v : Receipt) :
    chainsSince r (history ++ [v]) =
      if v.added then if v.ratchetKey = r then 0 else chainsSince r history + 1
      else chainsSince r history := by
  simp [chainsSince]

namespace State

variable [Suite] {own s t : State} {now : UInt64} {m : RatchetMessage} {e e' : Entropy}
  {plain : Bytes}

/-- A cached key stays in the cache throughout a run, unless it is lost. -/
theorem Retains.runs (hr : s.Retains entry k p) (hs : s.Coherent) (run : s.Runs c h t) :
    t.Retains entry (k + (h.map Receipt.cached).sum) (p + h.countP Receipt.added) ∨
      entry.Lost c k p h := by
  induction run with
  | start => exact .inl (by simpa using hr)
  | writes _ written ih =>
    obtain ⟨-, -, rfl⟩ := encrypt_ok.mp written
    exact ih.imp_left fun hkept => ⟨hkept.cached, hkept.chain⟩
  | refuses _ _ ih => exact ih
  | @reads history s t now m e e' plain run read ih =>
    rcases ih with hkept | hlost
    · have hcoherent := run.coherent hs
      refine (hkept.reads hcoherent (decrypt_ok.mp read)).imp
        (fun hstill => ?_) fun hlost => hlost.later
      rw [List.map_append, List.sum_append, List.countP_append,
        Receipt.countP_added, ← Nat.add_assoc, ← Nat.add_assoc]
      simpa using hstill
    · exact .inr (hlost.append _)

/-- Taking message keys adds no chain and drops none. -/
theorem Supplied.ratchetKeys {their : PublicKey} {chain : ChainKey} {n : UInt32}
    {keys : MessageKeys} (hk : Supplied c now s their chain n keys t) :
    t.receivers.map ReceiverChain.ratchetKey = s.receivers.map ReceiverChain.ratchetKey := by
  cases hk with
  | cached => rfl
  | reached => exact ratchetKeys_moved _ _ _

/-- A reading leaves the chains in the order in which they were added. -/
theorem Coherent.reads_chains (hs : s.Coherent) (hr : s.Reads c now m e plain t e')
    (horder : ∀ r ∈ s.receivers.map ReceiverChain.ratchetKey,
      Within (s.receivers.map ReceiverChain.ratchetKey) r (chainsSince r h)) :
    ∀ r ∈ t.receivers.map ReceiverChain.ratchetKey,
      Within (t.receivers.map ReceiverChain.ratchetKey) r
        (chainsSince r (h ++ [s.receipt now m])) := by
  obtain ⟨chain, ready, taken, hphases, rfl⟩ := hs.phases hr
  obtain ⟨keys, hsupplied⟩ := hphases.supplied
  change ∀ r ∈ taken.receivers.map ReceiverChain.ratchetKey,
    Within (taken.receivers.map ReceiverChain.ratchetKey) r _
  rw [hsupplied.ratchetKeys]
  intro r hmem
  rw [chainsSince_append, receipt, ← hasReceiverChain_expire c now]
  rw [← expire_receivers c now s] at horder
  have hstands := hphases.stands
  have hexpired := hs.expire c now
  generalize s.expire c now = u at hstands horder hexpired
  cases hstands with
  | held hold => simpa [hasReceiverChain, hold] using horder r hmem
  | stepped new =>
    have hall : (u.receivers.map ReceiverChain.ratchetKey ++ [m.ratchetKey]).Nodup :=
      hexpired.chains.append (List.nodup_singleton _)
        (List.disjoint_singleton.mpr (notMem_of_new new))
    simp only [hasReceiverChain, new, Option.isSome_none, Bool.not_false, if_true]
    rw [ratchetKeys_ratcheted] at hmem ⊢
    exact within_drop_append hall horder hmem

/-- The chains of a state stand in the order in which they were added. -/
theorem Runs.chains_ordered (hown : own.New) (run : own.Runs c h s) :
    ∀ r ∈ s.receivers.map ReceiverChain.ratchetKey,
      Within (s.receivers.map ReceiverChain.ratchetKey) r (chainsSince r h) := by
  induction run with
  | start =>
    rcases hown.receivers with hnone | ⟨ch, hone, -⟩
    · simp [hnone]
    · simpa [hone, chainsSince] using within_append_self [] ch.ratchetKey
  | writes _ written ih =>
    obtain ⟨-, -, rfl⟩ := encrypt_ok.mp written
    exact ih
  | reads run read ih => exact (run.coherent hown.coherent).reads_chains (decrypt_ok.mp read) ih
  | refuses _ _ ih => exact ih

/-- Reading a message passes over the one that an entry is for: it is behind the
message on the chain, and the entry has the keys of its link. -/
def Skips (c : Config) (now : UInt64) (s : State) (m : RatchetMessage) (e : Entropy)
    (entry : SkippedKey) : Prop :=
  ∃ chain ready e',
    outcome ((s.expire c now).receivingChain c m.ratchetKey) e = (.ok (chain, ready), e') ∧
    ∃ i, chain.index.toNat + i < m.counter.toNat ∧
    entry = ⟨m.ratchetKey, (chain.advance i).messageKeys, now⟩

/-- Each number between the chain and the message is passed over. -/
theorem Coherent.exists_skips (hs : s.Coherent) (hr : s.Reads c now m e plain t e') {n : UInt32}
    (from_index : s.indexOf m.ratchetKey ≤ n) (below : n < m.counter) :
    ∃ entry, s.Skips c now m e entry ∧ entry.name = (m.ratchetKey, n) ∧ entry.storedAt = now := by
  obtain ⟨chain, ready, taken, hphases, rfl⟩ := hs.phases hr
  rw [← hphases.index, UInt32.le_iff_toNat_le] at from_index
  rw [UInt32.lt_iff_toNat_lt] at below
  have hjump : n.toNat < chain.index.toNat + (m.counter.toNat - chain.index.toNat) := by omega
  obtain ⟨i, hi, rfl⟩ := exists_advance_index from_index hjump
  exact ⟨_, ⟨chain, ready, e', receivingChain_ok.mpr hphases.stands, i, by omega, rfl⟩, rfl, rfl⟩

/-- What is passed over is cached, with the later links of the jump behind it. -/
theorem Coherent.retains_skipped (hs : s.Coherent) (hr : s.Reads c now m e plain t e')
    (hskip : s.Skips c now m e entry)
    (hchain : Within (t.receivers.map ReceiverChain.ratchetKey) m.ratchetKey p) :
    t.Retains entry (m.counter.toNat - entry.keys.counter.toNat - 1) p ∨
      c.maxSkippedKeys ≤ m.counter.toNat - entry.keys.counter.toNat - 1 := by
  obtain ⟨chain, ready, taken, hphases, rfl⟩ := hs.phases hr
  obtain ⟨chain', ready', e₁, hready, i, hi, rfl⟩ := hskip
  rw [receivingChain_ok.mpr hphases.stands] at hready
  obtain ⟨rfl, rfl⟩ : chain = chain' ∧ ready = ready' := by simpa using congrArg Prod.fst hready
  obtain ⟨keys, hsupplied⟩ := hphases.supplied
  cases hsupplied with
  | cached behind =>
    rw [UInt32.lt_iff_toNat_lt] at behind
    omega
  | reached ahead near short =>
    obtain ⟨hcounter, hsize⟩ := toNat_eq_add_jump ahead short
    have hi' : (chain.advance i).index.toNat = chain.index.toNat + i :=
      ChainKey.advance_index_toNat (by omega)
    have hbehind : m.counter.toNat - (chain.advance i).messageKeys.counter.toNat - 1 =
        (m.counter - chain.index).toNat - (i + 1) := by
      rw [ChainKey.messageKeys_counter, hi']
      omega
    have hlink := within_cacheAll_link hphases.coherent.distinct
      (show chain.index.toNat + (m.counter - chain.index).toNat < UInt32.size by omega)
      (show i < (m.counter - chain.index).toNat by omega) m.ratchetKey now c.maxSkippedKeys
    rw [hbehind]
    exact hlink.imp_left fun hkept => ⟨hkept, hchain⟩

/-- What is passed over is between the chain and the message. -/
theorem Skips.between (hskip : s.Skips c now m e entry) :
    entry.ratchetKey = m.ratchetKey ∧ entry.storedAt = now ∧
    (s.indexOf m.ratchetKey).toNat ≤ entry.keys.counter.toNat ∧
    entry.keys.counter.toNat < m.counter.toNat := by
  obtain ⟨chain, ready, e', hready, i, hi, rfl⟩ := hskip
  have hsize := toNat_lt_size m.counter
  have hi' : (chain.advance i).index.toNat = chain.index.toNat + i :=
    ChainKey.advance_index_toNat (by omega)
  have hindex := (receivingChain_ok.mp hready).index.trans (indexOf_expire c now s m.ratchetKey)
  refine ⟨rfl, rfl, ?_, ?_⟩ <;> rw [ChainKey.messageKeys_counter, hi']
  · rw [hindex]
    omega
  · exact hi

/-- No message is read that is further ahead of its chain than allowed. -/
theorem Coherent.jump_le (hs : s.Coherent) (hr : s.Reads c now m e plain t e') :
    m.counter.toNat - (s.indexOf m.ratchetKey).toNat ≤ c.maxForwardJump.toNat := by
  obtain ⟨chain, ready, taken, hphases, rfl⟩ := hs.phases hr
  obtain ⟨keys, hsupplied⟩ := hphases.supplied
  rw [← hphases.index]
  cases hsupplied with
  | cached behind =>
    rw [UInt32.lt_iff_toNat_lt] at behind
    omega
  | reached ahead near =>
    rw [UInt32.le_iff_toNat_le, toNat_sub ahead] at near
    exact near

/-- Every entry was there before and not stale, or was passed over by the message that was read. -/
theorem Coherent.mem_or_skips (hs : s.Coherent) (hr : s.Reads c now m e plain t e')
    (he : entry ∈ t.skipped.entries) :
    entry ∈ (s.expire c now).skipped.entries ∨ s.Skips c now m e entry := by
  obtain ⟨chain, ready, taken, hphases, rfl⟩ := hs.phases hr
  have hstands := hphases.stands
  have hbefore : entry ∈ ready.skipped.entries → entry ∈ (s.expire c now).skipped.entries := by
    intro hmem
    cases hstands with
    | held => exact hmem
    | stepped => exact (mem_ratcheted_entries.mp hmem).1
  obtain ⟨keys, hsupplied⟩ := hphases.supplied
  cases hsupplied with
  | cached behind take =>
    obtain ⟨-, rfl⟩ := SkippedKeys.take?_eq_some take
    exact .inl (hbefore (SkippedKeys.mem_of_mem_erase he))
  | reached ahead near short =>
    obtain ⟨hcounter, -⟩ := toNat_eq_add_jump ahead short
    rcases mem_cacheAll he with hold | ⟨i, hi, rfl⟩
    · exact .inl (hbefore hold)
    · exact .inr ⟨chain, ready, e', receivingChain_ok.mpr hphases.stands, i, by omega, rfl⟩

/-- The state that reads a message is left without stale keys. -/
theorem Coherent.not_stale (hs : s.Coherent) (hr : s.Reads c now m e plain t e')
    (he : entry ∈ t.skipped.entries) :
    ¬entry.Stale c now := by
  rcases hs.mem_or_skips hr he with hkept | hskip
  · exact (mem_expire_iff.mp hkept).2
  · rintro ⟨age, -, hlate⟩
    rw [hskip.between.2.1] at hlate
    omega

/-- With bounds that fit together a jump evicts none of the keys that it caches. -/
theorem Coherent.mem_of_skips (hs : s.Coherent) (hr : s.Reads c now m e plain t e')
    (hskip : s.Skips c now m e entry) (hfit : c.maxForwardJump.toNat ≤ c.maxSkippedKeys) :
    entry ∈ t.skipped.entries := by
  obtain ⟨-, -, hfrom, hbelow⟩ := hskip.between
  have hjump := hs.jump_le hr
  obtain ⟨hcoherent, hspent⟩ := hs.reads hr
  obtain ⟨chain, hheld, -⟩ := hspent.past
  obtain ⟨front, back, hsplit⟩ :=
    List.append_of_mem (List.mem_map_of_mem (mem_of_receiverChain? hheld))
  rcases hs.retains_skipped hr hskip ⟨front, back, hsplit, Nat.le_refl _⟩ with hkept | hfull
  · exact hkept.cached.mem
  · omega

/-- Every key in the cache of a state in a run was cached in the course of it. -/
theorem Runs.exists_skips (hown : own.New) (run : own.Runs c h t) (he : entry ∈ t.skipped.entries) :
    ∃ before s now m e plain s' e' after, own.Runs c before s ∧ s.Reads c now m e plain s' e' ∧
      s.Skips c now m e entry ∧ s'.Runs c after t ∧ h = before ++ s.receipt now m :: after := by
  induction run with
  | start => simp [hown.skipped] at he
  | writes _ written ih =>
    obtain ⟨-, -, rfl⟩ := encrypt_ok.mp written
    obtain ⟨before, s, now, m, e, plain, s', e', after, hbefore, hreads, hskip, hafter, rfl⟩ :=
      ih he
    exact ⟨before, s, now, m, e, plain, s', e', after, hbefore, hreads, hskip,
      hafter.writes written, rfl⟩
  | reads run read ih =>
    have hread := decrypt_ok.mp read
    rcases (run.coherent hown.coherent).mem_or_skips hread he with hold | hskip
    · obtain ⟨before, s, now, m, e, plain, s', e', after, hbefore, hreads, hskip, hafter, rfl⟩ :=
        ih (mem_expire hold)
      exact ⟨before, s, now, m, e, plain, s', e', _, hbefore, hreads, hskip,
        hafter.reads read, by simp⟩
    · exact ⟨_, _, _, _, _, _, _, _, [], run, hread, hskip, .start, rfl⟩
  | refuses _ refused ih =>
    obtain ⟨before, s, now, m, e, plain, s', e', after, hbefore, hreads, hskip, hafter, rfl⟩ :=
      ih he
    exact ⟨before, s, now, m, e, plain, s', e', after, hbefore, hreads, hskip,
      hafter.refuses refused, rfl⟩

/-- A key that was cached in the course of a run is in the cache at its end, or lost. -/
theorem Runs.mem_or_lost (hown : own.New) (run : own.Runs c h s) (hr : s.Reads c now m e plain t e')
    (hskip : s.Skips c now m e entry) {u : State} (after : t.Runs c h' u) :
    entry ∈ u.skipped.entries ∨ entry.Lost c (m.counter.toNat - entry.keys.counter.toNat - 1)
      (chainsSince m.ratchetKey (h ++ [s.receipt now m])) h' := by
  have hs := run.coherent hown.coherent
  obtain ⟨hcoherent, hspent⟩ := hs.reads hr
  obtain ⟨chain, hheld, -⟩ := hspent.past
  have hordered := (run.reads (decrypt_ok.mpr hr)).chains_ordered hown m.ratchetKey
    (List.mem_map_of_mem (mem_of_receiverChain? hheld))
  rcases hs.retains_skipped hr hskip hordered with hkept | hfull
  · exact (hkept.runs hcoherent after).imp_left fun hstill => hstill.cached.mem
  · exact .inr (.evicted (Nat.le_trans hfull (Nat.le_add_right _ _)))

end State

end Run

end DoubleRatchet
