import DoubleRatchet.Proofs.Conversation.Standing
import DoubleRatchet.Proofs.Session.Retention
import Mathlib.Data.List.Perm.Subperm

/-!
# Batches of messages

In a conversation by turns one party writes a number of messages on its rung,
and the other one reads them all, in some order, before it answers. The first
of them makes the listener climb. As long as a jump does not evict the keys
that it caches, everything behind the chain is either cached or was read; so
nothing is cached once all are read.
-/
namespace DoubleRatchet

namespace SkippedKeys

variable (c : SkippedKeys) (r : PublicKey) (keys : MessageKeys) (storedAt : UInt64) (capacity : Nat)

theorem length_filled_le : (c.filled r keys storedAt).length ≤ c.size + 1 := by
  have h := (List.eraseP_sublist (p := (·.isFor r keys.counter)) (l := c.entries)).length_le
  simp only [filled, erase, size, List.length_append, List.length_singleton]
  omega

theorem evicted_eq_nil (h : c.size < capacity) : c.evicted r keys storedAt capacity = [] := by
  have hfilled := c.length_filled_le r keys storedAt
  rw [evicted, Nat.sub_eq_zero_of_le (by omega), List.take_zero]

theorem size_insert_le_succ : (c.insert r keys storedAt capacity).2.size ≤ c.size + 1 := by
  have hfilled := c.length_filled_le r keys storedAt
  rw [size, entries_insert, List.length_drop]
  omega

end SkippedKeys

variable [Suite]

namespace State

theorem evictedLinks_eq_nil {capacity : Nat} {now : UInt64} {r : PublicKey} {count : Nat}
    {chain : ChainKey} {c : SkippedKeys} (h : c.size + count ≤ capacity) :
    evictedLinks capacity now r count chain c = [] := by
  induction count generalizing chain c with
  | zero => rfl
  | succ count ih =>
    have hsize := c.size_insert_le_succ r chain.messageKeys now capacity
    rw [evictedLinks, c.evicted_eq_nil _ _ _ _ (by omega), ih (by omega), List.nil_append]

section Reads

variable {c : Config} {now : UInt64} {s after : State} {m : RatchetMessage} {e e' : Entropy}
  {plain : Bytes}

omit [Suite] in
/-- Without an age bound nothing expires. -/
theorem expire_of_ageless (hage : c.skippedKeyMaxAge = none) (now : UInt64) (s : State) :
    s.expire c now = s := by
  rw [expire, hage]

/-- All that a reading adds to the cache belongs to the message's own chain. -/
theorem Reads.mem_entries (hs : s.Coherent) (hr : s.Reads c now m e plain after e')
    {entry : SkippedKey} (hentry : entry ∈ after.skipped.entries) :
    entry ∈ s.skipped.entries ∨ entry.ratchetKey = m.ratchetKey := by
  rcases hs.mem_or_skips hr hentry with hkept | hskip
  · exact .inl (mem_expire hkept)
  · exact .inr hskip.between.1

/-- The chain of a message goes on to the message, if it was not there yet. -/
theorem Reads.index_le (hs : s.Coherent) (hr : s.Reads c now m e plain after e') {n : Nat}
    (hbefore : ∀ chain, s.receiverChain? m.ratchetKey = some chain → chain.index.toNat ≤ n)
    (hm : m.counter.toNat < n) {chain : ChainKey}
    (hold : after.receiverChain? m.ratchetKey = some chain) : chain.index.toNat ≤ n := by
  obtain ⟨-, chain', ready, keys, taken, hready, hkeys, -, -, rfl⟩ := hr
  obtain ⟨hcoherent, hold'⟩ := (hs.expire c now).ready hready
  have hindex : chain'.index.toNat ≤ n := by
    cases hready with
    | held hheld =>
      rw [receiverChain?_expire] at hheld
      exact hbefore chain' hheld
    | stepped _ receive =>
      rw [RootKey.createChain_index receive]
      exact Nat.zero_le n
  cases (keysAt_ok hcoherent.chains hold').mp hkeys with
  | cached =>
    obtain rfl := Option.some_inj.mp (hold'.symm.trans hold)
    exact hindex
  | reached ahead near short =>
    obtain ⟨hcounter, hsize⟩ := toNat_eq_add_jump ahead short
    have hmoved :
        (ready.jumped c now m.ratchetKey chain' (m.counter - chain'.index).toNat).receiverChain?
        m.ratchetKey = _ := receiverChain?_jumped_self hcoherent hold'
    obtain rfl := Option.some_inj.mp (hmoved.symm.trans hold)
    rw [index_jumped (by omega)]
    omega

end Reads

/-- A state has read the numbers in `got` of the `n` messages on a rung, and has
keys cached for others of them only. -/
structure Follows (x : Rung) (n : Nat) (got : List Nat) (s : State) : Prop where
  coherent : s.Coherent
  own : ∀ e ∈ s.skipped.entries, e.ratchetKey = x.key
  within : ∀ chain, s.receiverChain? x.key = some chain → chain.index.toNat ≤ n
  spent : ∀ i ∈ got, s.Spent x.key (UInt32.ofNat i)
  accounts : s.Accounts fun name => name.1 = x.key → name.2.toNat ∈ got

namespace Follows

variable {x : Rung} {n : Nat} {got : List Nat} {s : State}

omit [Suite] in
/-- A state that holds no chain of the rung and no keys at all has everything before it. -/
theorem start (hs : s.Coherent) (hnone : s.receiverChain? x.key = none)
    (hclear : s.skipped.entries = []) (n : Nat) :
    s.Follows x n [] := by
  refine ⟨hs, fun e he => ?_, fun chain hold => ?_, fun i hi => ?_,
    fun r chain hold k _ => .inr fun hr => ?_⟩
  · rw [hclear] at he
    cases he
  · rw [hnone] at hold
    cases hold
  · cases hi
  · rw [show r = x.key from hr, hnone] at hold
    cases hold

omit [Suite] in
/-- There are no more keys cached than numbers behind the chain. -/
theorem size_le (h : s.Follows x n got) {bound : Nat}
    (hbound : ∀ chain, s.receiverChain? x.key = some chain → chain.index.toNat ≤ bound) :
    s.skipped.size ≤ bound := by
  have hnames := h.coherent.distinct
  -- they have different numbers, since they are all of one chain
  have hcounters : (s.skipped.entries.map fun e => e.keys.counter.toNat).Nodup := by
    refine (List.nodup_map_iff_inj_on (List.Nodup.of_map _ hnames)).mpr fun a ha b hb hab => ?_
    have hname : a.name = b.name :=
      Prod.ext ((h.own a ha).trans (h.own b hb).symm) (UInt32.toNat_inj.mp hab)
    exact List.inj_on_of_nodup_map hnames ha hb hname
  have hrange : (s.skipped.entries.map fun e => e.keys.counter.toNat) ⊆ List.range bound := by
    intro k hk
    obtain ⟨e, he, rfl⟩ := List.mem_map.mp hk
    obtain ⟨ch, hch, hkey, hlt⟩ := h.coherent.behind e he
    have hheld := receiverChain?_of_mem h.coherent.chains hch
    rw [hkey, h.own e he] at hheld
    have hindex := hbound _ hheld
    rw [UInt32.lt_iff_toNat_lt] at hlt
    exact List.mem_range.mpr (by omega)
  have hlength := (hcounters.subperm hrange).length_le
  rwa [List.length_map, List.length_range] at hlength

section Step

variable {c : Config} {now : UInt64} {m : RatchetMessage} {e e' : Entropy} {plain : Bytes}
  {after : State}

/-- A jump within the capacity loses nothing, and neither does a message at the chain. -/
theorem losses_eq_nil (h : s.Follows x n got) (hage : c.skippedKeyMaxAge = none)
    (hkey : m.ratchetKey = x.key) (hr : s.Reads c now m e plain after e')
    (hnear : m.counter.toNat ≤ c.maxSkippedKeys ∨ ∃ chain, s.receiverChain? x.key = some chain ∧
      m.counter.toNat ≤ chain.index.toNat) :
    s.losses c now m e = [] := by
  obtain ⟨-, chain, ready, keys, taken, hready, -, -, -, -⟩ := hr
  rw [expire_of_ageless hage] at hready
  have hexpiring : s.expiring c now = [] := by rw [expiring, hage]
  rw [losses, hexpiring, expire_of_ageless hage, receivingChain_ok.mpr hready,
    List.map_nil, List.nil_append]
  simp only
  split
  · rfl
  · next ahead =>
    rw [UInt32.lt_iff_toNat_lt, Nat.not_lt] at ahead
    have hsub : (m.counter - chain.index).toNat = m.counter.toNat - chain.index.toNat :=
      toNat_sub (by rw [UInt32.lt_iff_toNat_lt]; omega)
    have hsame : ∀ held, s.receiverChain? x.key = some held → held = chain := by
      intro held hheld
      rw [← hkey] at hheld
      cases hready with
      | held hold => exact Option.some_inj.mp (hheld.symm.trans hold)
      | stepped new => cases new.symm.trans hheld
    have hfewer : ready.skipped.size ≤ s.skipped.size := by
      cases hready with
      | held => exact Nat.le_refl _
      | stepped => exact (SkippedKeys.purgeAll_sublist _ _).length_le
    have hsize : s.skipped.size ≤ chain.index.toNat :=
      h.size_le fun held hheld => Nat.le_of_eq (by rw [hsame held hheld])
    rcases hnear with hcapacity | ⟨held, hheld, hle⟩
    · rw [evictedLinks_eq_nil (by omega), List.map_nil]
    · have hzero : (m.counter - chain.index).toNat = 0 := by
        rw [hsame held hheld] at hle
        omega
      rw [hzero]
      rfl

/-- A message of the rung that is read without losses is one more that the state has read. -/
theorem reads (h : s.Follows x n got) (hkey : m.ratchetKey = x.key) {i : Nat}
    (hi : m.counter.toNat = i) (hlt : i < n) (hr : s.Reads c now m e plain after e')
    (hlosses : s.losses c now m e = []) : after.Follows x n (i :: got) := by
  obtain ⟨hcoherent, hspent⟩ := h.coherent.reads hr
  have hcounter : m.counter = UInt32.ofNat i := by rw [← hi, UInt32.ofNat_toNat]
  rw [hkey] at hspent
  refine ⟨hcoherent, fun entry hentry => ?_, fun chain hold => ?_, fun k hk => ?_, ?_⟩
  · rcases hr.mem_entries h.coherent hentry with hold | hnew
    · exact h.own entry hold
    · exact hnew.trans hkey
  · exact hr.index_le h.coherent (hkey ▸ h.within) (hi ▸ hlt) (hkey ▸ hold)
  · rcases List.mem_cons.mp hk with rfl | hk
    · exact hcounter ▸ hspent
    · obtain ⟨chain, hold, -⟩ := hspent.past
      exact (h.spent k hk).reads h.coherent hr (by rw [hasReceiverChain, hold]; rfl)
  · refine (h.accounts.reads h.coherent hr).mono fun name hname hrung => ?_
    rcases hname with hread | hself | hlost
    · exact List.mem_cons_of_mem i (hread hrung)
    · rw [hself, hi]
      exact List.mem_cons_self
    · rw [hlosses] at hlost
      cases hlost

end Step

omit [Suite] in
/-- Once all messages of the batch are read no keys are left. -/
theorem clear (h : s.Follows x n got) (hall : ∀ i < n, i ∈ got) : s.skipped.entries = [] := by
  refine List.eq_nil_iff_forall_not_mem.mpr fun e he => ?_
  obtain ⟨ch, hch, hkey, hlt⟩ := h.coherent.behind e he
  have hheld := receiverChain?_of_mem h.coherent.chains hch
  rw [hkey, h.own e he] at hheld
  have hindex := h.within _ hheld
  rw [UInt32.lt_iff_toNat_lt] at hlt
  have hgone := (h.spent _ (hall e.keys.counter.toNat (by omega))).gone e he
  rw [UInt32.ofNat_toNat] at hgone
  exact hgone (Prod.ext (h.own e he) rfl)

end Follows

end State

/-- It is the turn of one state to write: it stands on the last rung and has not
written there, the other one stands on the rung below, and both have read
everything that was written to them. -/
structure Turn (rungs : List Rung) (k : Nat) (speaker listener : State) : Prop where
  ladder : Ladder rungs
  distinct : (rungs.map Rung.key).Nodup
  top : rungs.length = k + 2
  speaks : speaker.Stands rungs (k + 1)
  listens : listener.Stands rungs k
  start : speaker.sender.chain.index = 0
  clear : speaker.skipped.entries = [] ∧ listener.skipped.entries = []

omit [Suite] in
theorem distinct_of_nodup {rungs : List Rung} (h : (rungs.map Rung.key).Nodup) :
    Distinct rungs := by
  intro i j x y hx hy _ hkey
  have hi : (rungs.map Rung.key)[i]? = some x.key := by rw [List.getElem?_map, hx]; rfl
  have hj : (rungs.map Rung.key)[j]? = some x.key := by rw [List.getElem?_map, hy, hkey]; rfl
  exact (List.getElem?_inj (lt_of_getElem? hi) h).mp (hi.trans hj.symm)

/-- In the course of a batch: the listener has climbed to a rung of its own, above
the one that the messages are on, and follows them. -/
structure Listening (rungs : List Rung) (k : Nat) (x : Rung) (n : Nat) (got : List Nat)
    (s : State) : Prop where
  ladder : Ladder rungs
  distinct : (rungs.map Rung.key).Nodup
  top : rungs.length = k + 3
  rung : rungs[k + 1]? = some x
  stands : s.Stands rungs (k + 2)
  start : s.sender.chain.index = 0
  holds : s.hasReceiverChain x.key = true
  follows : s.Follows x n got

/-- A message of a batch comes in time: it is not too far up the chain, or the
one in front of it was read. -/
def InTime (c : Config) (got : List Nat) (i : Nat) : Prop :=
  i ≤ c.maxForwardJump.toNat ∨ i - 1 ∈ got

section Turns

variable {rungs : List Rung} {k n i : Nat} {c : Config} {now : UInt64} {m : RatchetMessage}
  {plain : Bytes} {x : Rung}

/-- The listener holds no chain of the last rung. -/
theorem Turn.new {speaker listener : State} (h : Turn rungs k speaker listener)
    (hx : rungs[k + 1]? = some x) :
    listener.receiverChain? x.key = none := by
  refine State.receiverChain?_eq_none.mpr fun ch hch hkey => ?_
  obtain ⟨q, y, t, hbelow, -, rfl⟩ := h.listens.receivers ch hch
  have hlt := hbelow.lt
  have hturn := hbelow.turn
  have hq := distinct_of_nodup h.distinct q (k + 1) y x hbelow.rung hx (by omega) hkey
  omega

/-- The first message of a batch is read with a ratchet step. -/
theorem Turn.reads [Suite.Lawful] {speaker listener : State} (h : Turn rungs k speaker listener)
    (hx : rungs[k + 1]? = some x)
    (hm : m.On x i listener.remoteIdentity listener.localIdentity plain)
    (hnear : i ≤ c.maxForwardJump.toNat) (now : UInt64) (e : Entropy) :
    ∃ after, listener.Reads c now m e plain after (Draw.keyPair e).2 :=
  h.listens.reads_of_new h.ladder hx hm (hm.key ▸ h.new hx) (hm.counter ▸ hnear) e

/-- So the listener climbs, to a rung with the pair that was drawn. -/
theorem Turn.climbs [Suite.Lawful] {speaker listener after : State}
    (h : Turn rungs k speaker listener) (hx : rungs[k + 1]? = some x)
    (hage : c.skippedKeyMaxAge = none) (hcache : c.maxForwardJump.toNat ≤ c.maxSkippedKeys)
    (hm : m.On x i listener.remoteIdentity listener.localIdentity plain) (hi : i < n)
    (hnear : i ≤ c.maxForwardJump.toNat) {e e' : Entropy}
    (hreads : listener.Reads c now m e plain after e')
    (hfresh : (Draw.keyPair e).1.publicKey ∉ rungs.map Rung.key) :
    ∃ z, z.pair = (Draw.keyPair e).1 ∧ Listening (rungs ++ [z]) k x n [i] after := by
  have hnew : listener.receiverChain? m.ratchetKey = none := hm.key ▸ h.new hx
  obtain ⟨z, hpair, hnext, hstands, hsender⟩ :=
    h.listens.reads_new h.ladder hx h.top hm.key hnew hreads
  have hlast : rungs[rungs.length - 1]? = some x := by rw [h.top]; exact hx
  have hladder := h.ladder.append hlast (hpair ▸ genuine_keyPair e) hnext
  have hfollows := State.Follows.start h.listens.coherent (h.new hx) h.clear.2 n
  have hlosses :=
    hfollows.losses_eq_nil hage hm.key hreads (.inl (hm.counter ▸ Nat.le_trans hnear hcache))
  obtain ⟨-, hspent⟩ := h.listens.coherent.reads hreads
  obtain ⟨chain, hheld, -⟩ := hspent.past
  refine ⟨z, hpair, hladder, ?_, ?_, getElem?_append_of_some hx, hstands, ?_, ?_,
    hfollows.reads hm.key hm.counter hi hreads hlosses⟩
  · rw [List.map_append, List.map_singleton, List.nodup_append]
    refine ⟨h.distinct, List.nodup_singleton _, fun a ha b hb heq => hfresh ?_⟩
    rw [heq, List.mem_singleton.mp hb, Rung.key, hpair] at ha
    exact ha
  · rw [List.length_append, h.top]
    rfl
  · rw [hsender]
    exact RootKey.createChain_index hnext
  · rw [State.hasReceiverChain, ← hm.key, hheld]
    rfl

/-- Each other one is read on the chain that is held, and nothing is drawn for it. -/
theorem Listening.next {got : List Nat} {s : State} (h : Listening rungs k x n got s)
    (hage : c.skippedKeyMaxAge = none) (hcache : c.maxForwardJump.toNat ≤ c.maxSkippedKeys)
    (hm : m.On x i s.remoteIdentity s.localIdentity plain) (hi : i < n) (hnot : i ∉ got)
    (htime : InTime c got i) (now : UInt64) (e : Entropy) :
    ∃ after, s.Reads c now m e plain after e ∧ Listening rungs k x n (i :: got) after := by
  obtain ⟨chain, hold⟩ := Option.isSome_iff_exists.mp h.holds
  have hold' : s.receiverChain? m.ratchetKey = some chain := hm.key ▸ hold
  have hreached : i ≤ c.maxForwardJump.toNat ∨ i ≤ chain.index.toNat := by
    refine htime.imp_right fun hbefore => ?_
    -- the chain is past the message in front, which was read
    obtain ⟨chain', hpast, hlt⟩ := (h.follows.spent _ hbefore).past
    obtain rfl := Option.some_inj.mp (hold.symm.trans hpast)
    have hcounter := hm.counter ▸ toNat_lt_size m.counter
    rw [UInt32.lt_iff_toNat_lt, UInt32.toNat_ofNat_of_lt' (by omega)] at hlt
    omega
  have hcached : m.counter < chain.index → ∃ entry ∈ (s.expire c now).skipped.entries,
      entry.name = (m.ratchetKey, m.counter) := by
    intro hbehind
    -- behind the chain there is a key for whatever was not read
    rw [State.expire_of_ageless hage]
    rcases h.follows.accounts _ chain hold _ hbehind with hhas | hgot
    · rw [hm.key]
      exact hhas
    · exact absurd (hm.counter ▸ hgot rfl) hnot
  obtain ⟨after, hreads⟩ :=
    h.stands.reads_of_held h.ladder (distinct_of_nodup h.distinct) h.rung (by omega) hm hold'
    (by rw [hm.counter]; omega) hcached e
  obtain ⟨hstands, hsender⟩ :=
    h.stands.reads_held h.ladder (distinct_of_nodup h.distinct) h.rung (by omega) hm.key
    hold' hreads
  have hlosses := h.follows.losses_eq_nil hage hm.key hreads (by
    rw [hm.counter]
    exact hreached.imp (Nat.le_trans · hcache) fun hle => ⟨chain, hold, hle⟩)
  obtain ⟨-, hspent⟩ := h.stands.coherent.reads hreads
  obtain ⟨chain', hheld, -⟩ := hspent.past
  refine ⟨after, hreads, h.ladder, h.distinct, h.top, h.rung, hstands, ?_, ?_,
    h.follows.reads hm.key hm.counter hi hreads hlosses⟩
  · rw [hsender]
    exact h.start
  · rw [State.hasReceiverChain, ← hm.key, hheld]
    rfl

/-- When all messages of the batch are read it is the listener's turn. -/
theorem Listening.turn {got : List Nat} {s speaker : State} (h : Listening rungs k x n got s)
    (hspeaker : speaker.Stands rungs (k + 1)) (hclear : speaker.skipped.entries = [])
    (hall : ∀ i < n, i ∈ got) :
    Turn rungs (k + 1) s speaker :=
  ⟨h.ladder, h.distinct, h.top, h.stands, hspeaker, h.start, h.follows.clear hall, hclear⟩

end Turns

end DoubleRatchet
