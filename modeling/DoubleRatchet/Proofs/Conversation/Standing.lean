import DoubleRatchet.Proofs.Conversation.Rungs

/-!
# States on the ladder

A state that stands on a rung reads what was written on another party's rung
that it holds the chain of, and on the next rung if it has not been there. What
it writes and reads leaves it standing, on the same rung or two rungs higher.
-/
namespace DoubleRatchet

/-- A rung of the other party, below a rung. -/
structure Below (rungs : List Rung) (n q : Nat) (x : Rung) : Prop where
  rung : rungs[q]? = some x
  lt : q < n
  turn : q % 2 ≠ n % 2

theorem Below.append {rungs : List Rung} {n q : Nat} {x : Rung} (h : Below rungs n q x)
    (more : List Rung) :
    Below (rungs ++ more) n q x :=
  ⟨getElem?_append_of_some h.rung, h.lt, h.turn⟩

/-- Two rungs higher there is more below. -/
theorem Below.climb {rungs : List Rung} {n q : Nat} {x : Rung} (h : Below rungs n q x) :
    Below rungs (n + 2) q x := by
  have hlt := h.lt
  have hturn := h.turn
  exact ⟨h.rung, by omega, by omega⟩

variable [Suite]

/-- A state stands on a rung of its party. -/
structure State.Stands (rungs : List Rung) (n : Nat) (s : State) : Prop where
  coherent : s.Coherent
  version : s.version = currentVersion
  sends : ∃ x j, rungs[n]? = some x ∧ j < UInt32.size ∧
      s.sender = ⟨x.pair, x.chain.advance j⟩ ∧ s.rootKey = x.root
  receivers : ∀ ch ∈ s.receivers, ∃ q x t, Below rungs n q x ∧ t < UInt32.size ∧
    ch = ⟨x.key, x.chain.advance t⟩
  entries : ∀ e ∈ s.skipped.entries, ∃ q x i, Below rungs n q x ∧ i < UInt32.size ∧
    e.ratchetKey = x.key ∧ e.keys = x.keys i

/-- A message was written on a rung, with a number and between two identities. -/
structure RatchetMessage.On (x : Rung) (i : Nat) (sender receiver : PublicKey) (plain : Bytes)
    (m : RatchetMessage) : Prop where
  version : m.version = currentVersion
  key : m.ratchetKey = x.key
  counter : m.counter.toNat = i
  short : i ≠ UInt32.size - 1
  verifies : m.verify sender receiver (x.keys i).macKey.toList = true
  decrypts : Cbc.decrypt (Suite.cipher (x.keys i).cipherKey) (x.keys i).iv m.body = some plain

namespace State.Stands

variable {rungs : List Rung} {n : Nat} {s : State}

theorem append (h : s.Stands rungs n) (more : List Rung) : s.Stands (rungs ++ more) n := by
  obtain ⟨x, j, hx, hj, hsender, hroot⟩ := h.sends
  have hsends : (rungs ++ more)[n]? = some x := getElem?_append_of_some hx
  refine ⟨h.coherent, h.version, ⟨x, j, hsends, hj, hsender, hroot⟩,
    fun ch hch => ?_, fun e he => ?_⟩
  · obtain ⟨q, x, t, hbelow, ht, hchain⟩ := h.receivers ch hch
    exact ⟨q, x, t, hbelow.append more, ht, hchain⟩
  · obtain ⟨q, x, i, hbelow, hi, hkey, hkeys⟩ := h.entries e he
    exact ⟨q, x, i, hbelow.append more, hi, hkey, hkeys⟩

/-- Standing is a matter of the keys that a state holds. -/
theorem congr {t : State} (h : s.Stands rungs n) (version : t.version = s.version)
    (sender : t.sender = s.sender) (root : t.rootKey = s.rootKey)
    (receivers : t.receivers = s.receivers) (skipped : t.skipped = s.skipped) :
    t.Stands rungs n := by
  refine ⟨h.coherent.congr receivers skipped, version.trans h.version, ?_, ?_, ?_⟩
  · rw [sender, root]
    exact h.sends
  · rw [receivers]
    exact h.receivers
  · rw [skipped]
    exact h.entries

/-- A state still stands when entries go. -/
theorem shrink {skipped : SkippedKeys} (h : s.Stands rungs n) (hd : skipped.Distinct)
    (hs : ∀ e ∈ skipped.entries, e ∈ s.skipped.entries) :
    ({ s with skipped } : State).Stands rungs n :=
  ⟨h.coherent.shrink rfl hd hs, h.version, h.sends, h.receivers, fun e he => h.entries e (hs e he)⟩

theorem expire (h : s.Stands rungs n) (c : Config) (now : UInt64) :
    (s.expire c now).Stands rungs n := by
  rw [expire_eq]
  exact h.shrink (h.coherent.distinct.sublist (expire_sublist c now s)) fun _ => mem_expire

/-- The chain held for a rung is a link of that rung's chain. -/
theorem chain_eq (h : s.Stands rungs n) (hd : Distinct rungs) {q : Nat} {x : Rung}
    (hx : rungs[q]? = some x) (hq : q % 2 ≠ n % 2) {chain : ChainKey}
    (hold : s.receiverChain? x.key = some chain) :
    q < n ∧ ∃ t, t < UInt32.size ∧ chain = x.chain.advance t := by
  obtain ⟨q', x', t, hbelow, ht, heq⟩ := h.receivers _ (mem_of_receiverChain? hold)
  obtain ⟨hkey, hchain⟩ := ReceiverChain.mk.inj heq
  have hturn := hbelow.turn
  obtain rfl : q = q' := hd q q' x x' hx hbelow.rung (by omega) hkey
  obtain rfl := Option.some_inj.mp (hx.symm.trans hbelow.rung)
  exact ⟨hbelow.lt, t, ht, hchain⟩

/-- The keys cached for a message on a rung are the ones that it was written with. -/
theorem keys_eq (h : s.Stands rungs n) (hl : Ladder rungs) (hd : Distinct rungs) {q : Nat}
    {x : Rung} (hx : rungs[q]? = some x) (hq : q % 2 ≠ n % 2) {counter : UInt32} {e : SkippedKey}
    (he : e ∈ s.skipped.entries) (hname : e.name = (x.key, counter)) :
    e.keys = x.keys counter.toNat := by
  obtain ⟨q', x', i, hbelow, hi, hkey, hkeys⟩ := h.entries e he
  obtain ⟨hkey', hcounter⟩ := Prod.mk.inj hname
  have hturn := hbelow.turn
  obtain rfl : q = q' := hd q q' x x' hx hbelow.rung (by omega) (hkey'.symm.trans hkey)
  obtain rfl := Option.some_inj.mp (hx.symm.trans hbelow.rung)
  have hindex := index_of_start (hl.start x (List.mem_of_getElem? hx)) hi
  rw [hkeys, Rung.keys, ChainKey.messageKeys_counter] at hcounter
  rw [hkeys, ← hcounter, hindex]

theorem jumped (h : s.Stands rungs n) {q : Nat} {x : Rung} (hx : Below rungs n q x)
    (hstart : x.chain.index = 0) {t : Nat}
    (hold : s.receiverChain? x.key = some (x.chain.advance t)) {jump : Nat}
    (hsize : t + jump + 1 < UInt32.size) (c : Config) (now : UInt64) :
    (s.jumped c now x.key (x.chain.advance t) jump).Stands rungs n := by
  have hindex := index_of_start hstart (show t < UInt32.size by omega)
  refine ⟨h.coherent.jumped hold (by rw [hindex]; exact hsize), h.version, h.sends,
    fun ch hch => ?_, fun e he => ?_⟩
  · rcases mem_moved hch with rfl | ⟨hch, -⟩
    · exact ⟨q, x, t + (jump + 1), hx, by omega, by rw [ChainKey.advance_add t]⟩
    · exact h.receivers ch hch
  · rcases mem_cacheAll he with he | ⟨i, hi, rfl⟩
    · exact h.entries e he
    · exact ⟨q, x, t + i, hx, by omega, rfl, by rw [Rung.keys, ChainKey.advance_add t]⟩

/-- A ratchet step on the rung above leads two rungs up. -/
theorem ratcheted (h : s.Stands rungs n) {y z : Rung} (hy : rungs[n + 1]? = some y)
    (htop : rungs.length = n + 2) (new : s.receiverChain? y.key = none) (c : Config) :
    (s.ratcheted c y.key y.chain z.root z.pair z.chain).Stands (rungs ++ [z]) (n + 2) := by
  refine ⟨h.coherent.ratcheted new, h.version, ⟨z, 0, ?_, by decide, rfl, rfl⟩,
    fun ch hch => ?_, fun e he => ?_⟩
  · rw [← htop, List.getElem?_concat_length]
  · rcases mem_ratcheted_receivers.mp hch with hch | rfl
    · obtain ⟨q, x, t, hbelow, ht, hchain⟩ := h.receivers ch (List.mem_of_mem_drop hch)
      exact ⟨q, x, t, (hbelow.append [z]).climb, ht, hchain⟩
    · exact ⟨n + 1, y, 0, ⟨getElem?_append_of_some hy, by omega, by omega⟩, by decide, rfl⟩
  · obtain ⟨q, x, i, hbelow, hi, hkeys⟩ := h.entries e (mem_ratcheted_entries.mp he).1
    exact ⟨q, x, i, (hbelow.append [z]).climb, hi, hkeys⟩

/-- A ratchet step receives on the chain of the rung above. -/
theorem createChain_above (h : s.Stands rungs n) (hl : Ladder rungs) {y : Rung}
    (hy : rungs[n + 1]? = some y) :
    s.rootKey.createChain y.key s.sender.keyPair.privateKey = .ok (y.root, y.chain) := by
  obtain ⟨x, j, hx, -, hsender, hroot⟩ := h.sends
  rw [hsender, hroot]
  exact (hl.next n x y hx hy).receive

/-- The rung that a ratchet step from the rung above makes. -/
theorem next_of_stepped (h : s.Stands rungs n) (hl : Ladder rungs) {y : Rung}
    (hy : rungs[n + 1]? = some y) {middle root : RootKey} {chain sending : ChainKey}
    {fresh : KeyPair}
    (receive : s.rootKey.createChain y.key s.sender.keyPair.privateKey = .ok (middle, chain))
    (send : middle.createChain y.key fresh.privateKey = .ok (root, sending)) :
    chain = y.chain ∧ y.root.createChain y.key fresh.privateKey = .ok (root, sending) := by
  rw [h.createChain_above hl hy] at receive
  obtain ⟨rfl, rfl⟩ := Prod.mk.inj (Except.ok.inj receive)
  exact ⟨rfl, send⟩

section Reading

variable {c : Config} {now : UInt64} {m : RatchetMessage} {i q : Nat} {x : Rung} {plain : Bytes}

/-- On a chain that is held there are no keys for a message but the ones it was written with. -/
theorem keysFor?_of_held (h : s.Stands rungs n) (hl : Ladder rungs) (hd : Distinct rungs)
    (hx : rungs[q]? = some x) (hq : q % 2 ≠ n % 2) {chain : ChainKey}
    (hold : s.receiverChain? x.key = some chain) {counter : UInt32}
    (short : counter.toNat ≠ UInt32.size - 1) {keys : MessageKeys}
    (hkeys : s.keysFor? x.key counter = some keys) : keys = x.keys counter.toNat := by
  rw [keysFor?, chainFor?, hold, Option.some_or, Option.bind_some] at hkeys
  by_cases behind : counter < chain.index
  · rw [if_pos behind] at hkeys
    obtain ⟨⟨keys', rest⟩, htake, rfl⟩ := Option.map_eq_some_iff.mp hkeys
    obtain ⟨⟨entry, hentry, hname, rfl⟩, -⟩ := SkippedKeys.take?_eq_some htake
    exact h.keys_eq hl hd hx hq hentry hname
  · rw [if_neg behind] at hkeys
    obtain ⟨-, t, ht, rfl⟩ := h.chain_eq hd hx hq hold
    obtain ⟨hcounter, -⟩ := toNat_eq_add_jump behind short
    rw [index_of_start (hl.start x (List.mem_of_getElem? hx)) ht] at hcounter
    rw [← Option.some_inj.mp hkeys, Rung.keys, hcounter, ChainKey.advance_add]

/-- On the rung above they are the ones that a ratchet step leads to. -/
theorem keysFor?_of_new (h : s.Stands rungs n) (hl : Ladder rungs) (hx : rungs[n + 1]? = some x)
    (new : s.receiverChain? x.key = none) (counter : UInt32) :
    s.keysFor? x.key counter = some (x.keys counter.toNat) := by
  have hindex : x.chain.index = 0 := hl.start x (List.mem_of_getElem? hx)
  have hchain : s.chainFor? x.key = some x.chain := by
    rw [chainFor?, new, h.createChain_above hl hx]
    rfl
  rw [keysFor?, hchain, Option.bind_some, hindex, if_neg UInt32.not_lt_zero, UInt32.sub_zero]
  rfl

/-- Once its keys are supplied, a message on a rung is read. -/
theorem reads_of_supplied {chain : ChainKey} {ready taken : State} {keys : MessageKeys}
    {e e' : Entropy} (h : s.Stands rungs n) (hm : m.On x i s.remoteIdentity s.localIdentity plain)
    (hready : Ready c (s.expire c now) m.ratchetKey e chain ready e')
    (hsupply : keysAt c now ready m.ratchetKey chain m.counter = .ok (keys, taken))
    (hkeys : keys = x.keys i) :
    ∃ after, s.Reads c now m e plain after e' := by
  have hsame :=
    ((sameSession_expire c now s).trans hready.sameSession).trans (sameSession_of_keysAt hsupply)
  refine ⟨_, hm.version.trans h.version.symm, chain, ready, keys, taken, hready,
    hsupply, ?_, ?_, rfl⟩
  · rw [hsame.remoteIdentity, hsame.localIdentity, hkeys]
    exact hm.verifies
  · rw [hkeys]
    exact hm.decrypts

/-- A message on a chain that is held is read, if it is not too far ahead and,
when it is behind, its keys are still cached. -/
theorem reads_of_held (h : s.Stands rungs n) (hl : Ladder rungs) (hd : Distinct rungs)
    (hx : rungs[q]? = some x) (hq : q % 2 ≠ n % 2)
    (hm : m.On x i s.remoteIdentity s.localIdentity plain) {chain : ChainKey}
    (hold : s.receiverChain? m.ratchetKey = some chain)
    (near : m.counter.toNat ≤ chain.index.toNat + c.maxForwardJump.toNat)
    (cached : m.counter < chain.index → ∃ e ∈ (s.expire c now).skipped.entries,
      e.name = (m.ratchetKey, m.counter))
    (e : Entropy) : ∃ after, s.Reads c now m e plain after e := by
  have hexpire := h.expire c now
  have hold' : (s.expire c now).receiverChain? m.ratchetKey = some chain :=
    (receiverChain?_expire c now s _).trans hold
  have hready : Ready c (s.expire c now) m.ratchetKey e chain (s.expire c now) e := .held hold'
  have hshort : m.counter.toNat ≠ UInt32.size - 1 := hm.counter ▸ hm.short
  have hsupply : ∃ keys taken,
      keysAt c now (s.expire c now) m.ratchetKey chain m.counter = .ok (keys, taken) := by
    by_cases behind : m.counter < chain.index
    · obtain ⟨entry, hentry, hname⟩ := cached behind
      cases htake : (s.expire c now).skipped.take? m.ratchetKey m.counter with
      | none => exact absurd hname (SkippedKeys.take?_eq_none.mp htake entry hentry)
      | some taken =>
        exact ⟨_, _, (keysAt_ok hexpire.coherent.chains hold').mpr (.cached behind htake)⟩
    · obtain ⟨hcounter, -⟩ := toNat_eq_add_jump behind hshort
      have hnear : m.counter - chain.index ≤ c.maxForwardJump := by
        rw [UInt32.le_iff_toNat_le]
        omega
      exact ⟨_, _, (keysAt_ok hexpire.coherent.chains hold').mpr (.reached behind hnear hshort)⟩
  obtain ⟨keys, taken, hsupply⟩ := hsupply
  have hkeys := hready.keysFor? hsupply
  rw [hm.key] at hkeys hold'
  refine h.reads_of_supplied hm hready hsupply ?_
  rw [hexpire.keysFor?_of_held hl hd hx hq hold' hshort hkeys, hm.counter]

/-- A message on the rung above is read with a ratchet step, if it is not too far up its chain. -/
theorem reads_of_new [Suite.Lawful] (h : s.Stands rungs n) (hl : Ladder rungs)
    (hx : rungs[n + 1]? = some x) (hm : m.On x i s.remoteIdentity s.localIdentity plain)
    (new : s.receiverChain? m.ratchetKey = none) (near : m.counter.toNat ≤ c.maxForwardJump.toNat)
    (e : Entropy) :
    ∃ after, s.Reads c now m e plain after (Draw.keyPair e).2 := by
  have hexpire := h.expire c now
  have hreceive := hexpire.createChain_above hl hx
  obtain ⟨root, sending, hsend, -⟩ := createChain_agrees (hl.genuine x (List.mem_of_getElem? hx))
    (genuine_keyPair e) x.root
  have hnew : (s.expire c now).receiverChain? m.ratchetKey = none :=
    (receiverChain?_expire c now s _).trans new
  rw [← Rung.key, ← hm.key] at hsend
  rw [← hm.key] at hreceive
  have hready : Ready c (s.expire c now) m.ratchetKey e x.chain
      ((s.expire c now).ratcheted c m.ratchetKey x.chain root (Draw.keyPair e).1 sending)
      (Draw.keyPair e).2 := .stepped hnew hreceive hsend
  obtain ⟨hcoherent, hold⟩ := hexpire.coherent.ready hready
  have hindex : x.chain.index = 0 := hl.start x (List.mem_of_getElem? hx)
  have ahead : ¬m.counter < x.chain.index := by
    rw [hindex]
    exact UInt32.not_lt_zero
  have hnear : m.counter - x.chain.index ≤ c.maxForwardJump := by
    rw [hindex, UInt32.sub_zero, UInt32.le_iff_toNat_le]
    exact near
  have hsupply := (keysAt_ok hcoherent.chains hold).mpr
    (.reached ahead hnear (hm.counter ▸ hm.short) : Supplied c now _ _ _ _ _ _)
  have hkeys := hready.keysFor? hsupply
  rw [hm.key] at hkeys hnew
  rw [hexpire.keysFor?_of_new hl hx hnew, hm.counter] at hkeys
  exact h.reads_of_supplied hm hready hsupply (Option.some_inj.mp hkeys).symm

/-- The state after a message is read stands on the same rung if the chain was
held, and else on a new rung, two rungs up. -/
theorem of_supplied {ready taken after : State} {k : Nat} {chain : ChainKey} {keys : MessageKeys}
    (h : ready.Stands rungs k) (hx : Below rungs k q x) (hstart : x.chain.index = 0) {t : Nat}
    (ht : chain = x.chain.advance t) (hsize : t < UInt32.size)
    (hold : ready.receiverChain? x.key = some chain) {counter : UInt32}
    (hk : Supplied c now ready x.key chain counter keys taken)
    (hafter : after = { taken with pending := none }) : after.Stands rungs k := by
  subst hafter
  refine congr (s := taken) ?_ rfl rfl rfl rfl rfl
  cases hk with
  | cached behind take =>
    obtain ⟨-, rfl⟩ := SkippedKeys.take?_eq_some take
    exact h.shrink (h.coherent.distinct.erase _ _) fun e he => SkippedKeys.mem_of_mem_erase he
  | reached ahead near short =>
    subst ht
    obtain ⟨hcounter, hlast⟩ := toNat_eq_add_jump ahead short
    have hindex := index_of_start hstart hsize
    exact h.jumped hx hstart hold (by omega) c now

theorem reads_held {e e' : Entropy} {after : State} (h : s.Stands rungs n) (hl : Ladder rungs)
    (hd : Distinct rungs) (hx : rungs[q]? = some x) (hq : q % 2 ≠ n % 2)
    (hkey : m.ratchetKey = x.key) {chain : ChainKey}
    (hold : s.receiverChain? m.ratchetKey = some chain) (hr : s.Reads c now m e plain after e') :
    after.Stands rungs n ∧ after.sender = s.sender := by
  obtain ⟨-, chain', ready, keys, taken, hready, hkeys, -, -, hafter⟩ := hr
  have hold' : (s.expire c now).receiverChain? m.ratchetKey = some chain :=
    (receiverChain?_expire c now s _).trans hold
  obtain ⟨hlt, t, ht, hchain⟩ := h.chain_eq hd hx hq (hkey ▸ hold)
  have hexpire := h.expire c now
  cases hready with
  | stepped new => rw [hold'] at new; cases new
  | held hheld =>
    obtain rfl := Option.some_inj.mp (hold'.symm.trans hheld)
    have hsupply := (keysAt_ok hexpire.coherent.chains hold').mp hkeys
    rw [hkey] at hsupply hold'
    refine ⟨hexpire.of_supplied ⟨hx, hlt, hq⟩
      (hl.start x (List.mem_of_getElem? hx)) hchain ht hold' hsupply hafter, ?_⟩
    have hsender : (s.expire c now).sender = s.sender := by rw [expire_eq]
    rw [hafter, ← hsender]
    cases hsupply <;> rfl

theorem reads_new {e e' : Entropy} {after : State} (h : s.Stands rungs n) (hl : Ladder rungs)
    (hx : rungs[n + 1]? = some x) (htop : rungs.length = n + 2) (hkey : m.ratchetKey = x.key)
    (new : s.receiverChain? m.ratchetKey = none) (hr : s.Reads c now m e plain after e') :
    ∃ z : Rung, z.pair = (Draw.keyPair e).1 ∧
      x.root.createChain x.key z.pair.privateKey = .ok (z.root, z.chain) ∧
      after.Stands (rungs ++ [z]) (n + 2) ∧ after.sender = ⟨z.pair, z.chain⟩ := by
  obtain ⟨-, chain, ready, keys, taken, hready, hkeys, -, -, hafter⟩ := hr
  have hnew : (s.expire c now).receiverChain? m.ratchetKey = none :=
    (receiverChain?_expire c now s _).trans new
  have hexpire := h.expire c now
  obtain ⟨hcoherent, hold⟩ := hexpire.coherent.ready hready
  cases hready with
  | held hheld => rw [hnew] at hheld; cases hheld
  | stepped _ receive send =>
    rw [hkey] at receive send hnew
    obtain ⟨rfl, hnext⟩ := hexpire.next_of_stepped hl hx receive send
    have hsupply := (keysAt_ok hcoherent.chains hold).mp hkeys
    rw [hkey] at hsupply hold
    refine ⟨⟨(Draw.keyPair e).1, _, _⟩, rfl, hnext, ?_, ?_⟩
    · refine (hexpire.ratcheted hx htop hnew c).of_supplied (t := 0)
        ⟨getElem?_append_of_some hx, by omega, by omega⟩
        (hl.start x (List.mem_of_getElem? hx)) rfl (by decide) hold hsupply hafter
    · rw [hafter]
      cases hsupply <;> rfl

end Reading

theorem writes {t : State} {plain : Bytes} {m : Message} [Suite.Lawful] (h : s.Stands rungs n)
    (hl : Ladder rungs) (hm : s.encrypt plain = .ok (m, t)) : t.Stands rungs n ∧
      t.sender.chain.index.toNat = s.sender.chain.index.toNat + 1 ∧
      ∃ x, rungs[n]? = some x ∧
        m.inner.On x s.sender.chain.index.toNat s.localIdentity s.remoteIdentity plain := by
  obtain ⟨hend, rfl, rfl⟩ := encrypt_ok.mp hm
  obtain ⟨x, j, hx, hj, hsender, hroot⟩ := h.sends
  have hchain : s.sender.chain = x.chain.advance j := by rw [hsender]
  have hindex : s.sender.chain.index.toNat = j :=
    hchain ▸ index_of_start (hl.start x (List.mem_of_getElem? hx)) hj
  refine ⟨⟨h.coherent.congr rfl rfl, h.version, ⟨x, j + 1, hx, by omega, ?_, hroot⟩,
      h.receivers, h.entries⟩,
    toNat_succ hend, x, hx, ?_⟩
  · rw [setSenderChain, hchain, hsender, ChainKey.next_advance]
  · rw [inner_wrapped, hindex]
    have hkeys : s.sender.chain.messageKeys = x.keys j := by rw [hchain]; rfl
    refine ⟨h.version, ?_, hindex, hindex ▸ hend, ?_, ?_⟩
    · rw [Rung.key, ← show s.sender.keyPair = x.pair by rw [hsender]]
      rfl
    · rw [written, hkeys]
      exact RatchetMessage.verify_make _ _ _ _ _ _ _ _
    · rw [written, hkeys]
      exact Suite.cbc_decrypt_encrypt _ _ _

end State.Stands

end DoubleRatchet
