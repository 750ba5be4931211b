import DoubleRatchet.Proofs.Computation
import DoubleRatchet.Proofs.Session.Chains
import DoubleRatchet.Proofs.Wire.Message

/-!
# What it takes to read a message

`State.decrypt` goes through three phases: expired keys go, the receiver chain
of the ratchet key is found or made, and the message keys are taken from the
cache or from the chain. Each phase is described by the state that it leaves,
and `State.decrypt_ok` puts them together.
-/
namespace DoubleRatchet

/-- Message keys open a message as a text: its tag is right for some identities,
and its body decrypts. -/
def RatchetMessage.OpensUnder [Suite] (m : RatchetMessage) (keys : MessageKeys)
    (text : Bytes) : Prop :=
  (∃ sender receiver, m.verify sender receiver keys.macKey.toList = true) ∧
    Cbc.decrypt (Suite.cipher keys.cipherKey) keys.iv m.body = some text

namespace State

/-- Two states of one session: what was settled when it was set up is the same. -/
structure SameSession (s t : State) : Prop where
  version : t.version = s.version
  localIdentity : t.localIdentity = s.localIdentity
  remoteIdentity : t.remoteIdentity = s.remoteIdentity
  baseKey : t.baseKey = s.baseKey
  localRegistrationId : t.localRegistrationId = s.localRegistrationId
  remoteRegistrationId : t.remoteRegistrationId = s.remoteRegistrationId

theorem SameSession.refl (s : State) : s.SameSession s := ⟨rfl, rfl, rfl, rfl, rfl, rfl⟩

theorem SameSession.trans {s t u : State} (h : s.SameSession t) (h' : t.SameSession u) :
    s.SameSession u :=
  ⟨h'.version.trans h.version, h'.localIdentity.trans h.localIdentity,
    h'.remoteIdentity.trans h.remoteIdentity, h'.baseKey.trans h.baseKey,
    h'.localRegistrationId.trans h.localRegistrationId,
    h'.remoteRegistrationId.trans h.remoteRegistrationId⟩

theorem expire_receivers (c : Config) (now : UInt64) (s : State) :
    (s.expire c now).receivers = s.receivers := by
  unfold expire
  split <;> rfl

/-- Nothing but the cache changes. -/
theorem expire_eq (c : Config) (now : UInt64) (s : State) :
    s.expire c now = { s with skipped := (s.expire c now).skipped } := by
  unfold expire
  split <;> rfl

theorem expire_sublist (c : Config) (now : UInt64) (s : State) :
    (s.expire c now).skipped.entries.Sublist s.skipped.entries := by
  unfold expire
  split
  · exact List.filter_sublist
  · exact List.Sublist.refl _

theorem mem_expire {c : Config} {now : UInt64} {s : State} {e : SkippedKey}
    (h : e ∈ (s.expire c now).skipped.entries) : e ∈ s.skipped.entries :=
  (expire_sublist c now s).subset h

theorem sameSession_expire (c : Config) (now : UInt64) (s : State) :
    s.SameSession (s.expire c now) := by
  rw [expire_eq]
  constructor <;> rfl

/-- The state after a ratchet step: a chain for the peer's new key within the
bound, and a sender chain on a fresh key pair. -/
def ratcheted (c : Config) (s : State) (their : PublicKey) (chain : ChainKey) (root : RootKey)
    (fresh : KeyPair) (sending : ChainKey) : State :=
  { s with
    rootKey := root
    previousCounter := UInt32.ofNat (s.sender.chain.index.toNat - 1)
    sender := ⟨fresh, sending⟩
    receivers := s.receivers.drop (s.excess c.maxReceiverChains) ++ [⟨their, chain⟩]
    skipped := (s.dropped c.maxReceiverChains).foldl (fun c key => (c.purge key).2) s.skipped }

variable [Suite]

/-- A state stands ready to read with a chain: it held the chain, or it made a ratchet step. -/
inductive Ready (c : Config) (s : State) (their : PublicKey)
    (e : Entropy) : ChainKey → State → Entropy → Prop
  | held {chain : ChainKey} (hold : s.receiverChain? their = some chain) :
      Ready c s their e chain s e
  | stepped {middle root : RootKey} {chain sending : ChainKey} (new : s.receiverChain? their = none)
      (receive : s.rootKey.createChain their s.sender.keyPair.privateKey = .ok (middle, chain))
      (send : middle.createChain their (Draw.keyPair e).1.privateKey = .ok (root, sending)) :
      Ready c s their e chain (s.ratcheted c their chain root (Draw.keyPair e).1 sending)
        (Draw.keyPair e).2

theorem receivingChain_held {c : Config} {s : State} {their : PublicKey} {chain : ChainKey}
    (h : s.receiverChain? their = some chain) (e : Entropy) :
    outcome (s.receivingChain c their) e = (.ok (chain, s), e) := by
  simp only [receivingChain, h]
  exact outcome_pure _ _

theorem receivingChain_ok {c : Config} {s t : State} {their : PublicKey} {e e' : Entropy}
    {chain : ChainKey} :
    outcome (s.receivingChain c their) e = (.ok (chain, t), e') ↔ Ready c s their e chain t e' := by
  constructor
  · intro h
    unfold receivingChain at h
    cases hr : s.receiverChain? their with
    | some held =>
      simp only [hr, outcome_pure, Prod.mk.injEq, Except.ok.injEq] at h
      obtain ⟨⟨rfl, rfl⟩, rfl⟩ := h
      exact .held hr
    | none =>
      simp only [hr] at h
      obtain ⟨⟨middle, chain'⟩, e₁, hreceive, h⟩ := outcome_bind_ok.mp h
      obtain ⟨fresh, e₂, hfresh, h⟩ := outcome_bind_ok.mp h
      obtain ⟨⟨root, sending⟩, e₃, hsend, h⟩ := outcome_bind_ok.mp h
      simp only [receivingChain.liftExcept, outcome_mk, Prod.mk.injEq,
        mapError_ok] at hreceive hsend
      simp only [outcome_liftM, Prod.mk.injEq, Except.ok.injEq] at hfresh
      simp only [addReceiverChain_eq, outcome_pure, Prod.mk.injEq, Except.ok.injEq] at h
      obtain ⟨hreceive, rfl⟩ := hreceive
      obtain ⟨rfl, rfl⟩ := hfresh
      obtain ⟨hsend, rfl⟩ := hsend
      obtain ⟨⟨rfl, rfl⟩, rfl⟩ := h
      exact .stepped hr hreceive hsend
  · rintro (hold | ⟨new, receive, send⟩)
    · exact receivingChain_held hold e
    · unfold receivingChain
      simp only [new, outcome_bind, receivingChain.liftExcept, receive, send,
        outcome_mk, outcome_liftM, mapError_of_ok, addReceiverChain_eq, outcome_pure]
      rfl

/-- The state after a jump that caches the keys of the links on the way. -/
def jumped (c : Config) (now : UInt64) (s : State) (their : PublicKey) (chain : ChainKey)
    (jump : Nat) : State :=
  { s with
    receivers := moved their (chain.advance (jump + 1)) s.receivers
    skipped := cacheAll c.maxSkippedKeys now their jump chain s.skipped }

/-- Message keys come from the cache, or from the chain after a jump. -/
inductive Supplied (c : Config) (now : UInt64) (s : State) (their : PublicKey) (chain : ChainKey)
    (counter : UInt32) : MessageKeys → State → Prop
  | cached {keys : MessageKeys} {rest : SkippedKeys} (behind : counter < chain.index)
      (take : s.skipped.take? their counter = some (keys, rest)) :
      Supplied c now s their chain counter keys { s with skipped := rest }
  | reached (ahead : ¬counter < chain.index) (near : counter - chain.index ≤ c.maxForwardJump)
      (short : counter.toNat ≠ UInt32.size - 1) :
      Supplied c now s their chain counter (chain.advance (counter - chain.index).toNat).messageKeys
        (s.jumped c now their chain (counter - chain.index).toNat)

/-- With distinct ratchet keys the jump finds its chain again. -/
theorem setReceiverChain_cached {s : State} (hd : (s.receivers.map ReceiverChain.ratchetKey).Nodup)
    {their : PublicKey} {chain : ChainKey} (hold : s.receiverChain? their = some chain) (c : Config)
    (now : UInt64) (jump : Nat) :
    (cacheLinks c now their jump chain s).setReceiverChain their (chain.advance jump).next =
      .ok (s.jumped c now their chain jump) := by
  have hmem : their ∈ s.receivers.map ReceiverChain.ratchetKey :=
    List.mem_map_of_mem (mem_of_receiverChain? hold)
  rw [cacheLinks_eq, ChainKey.next_advance]
  simp only [setReceiverChain, setReceiver_eq hd hmem]
  rfl

theorem keysAt_ok {c : Config} {now : UInt64} {s t : State} {their : PublicKey} {chain : ChainKey}
    {counter : UInt32} {keys : MessageKeys} (hd : (s.receivers.map ReceiverChain.ratchetKey).Nodup)
    (hold : s.receiverChain? their = some chain) :
    keysAt c now s their chain counter = .ok (keys, t) ↔
      Supplied c now s their chain counter keys t := by
  constructor
  · intro h
    unfold keysAt at h
    by_cases hlt : counter < chain.index
    · rw [if_pos hlt] at h
      cases htake : s.takeKeys? their counter with
      | none => rw [htake] at h; cases h
      | some taken =>
        rw [htake] at h
        cases h
        obtain ⟨⟨keys', rest⟩, hrest, heq⟩ := Option.map_eq_some_iff.mp htake
        obtain ⟨rfl, rfl⟩ := Prod.mk.inj heq
        exact .cached hlt hrest
    · rw [if_neg hlt] at h
      simp only [setReceiverChain_cached hd hold] at h
      split at h
      · cases h
      · next hnear =>
        cases h
        rw [not_or, UInt32.not_lt] at hnear
        exact .reached hlt hnear.1 hnear.2
  · rintro (⟨behind, take⟩ | ⟨ahead, near, short⟩)
    · simp [keysAt, behind, takeKeys?, take]
    · have hnear :
          ¬(c.maxForwardJump < counter - chain.index ∨ counter.toNat = UInt32.size - 1) := by
        rw [not_or, UInt32.not_lt]
        exact ⟨near, short⟩
      unfold keysAt
      simp only [if_neg ahead, setReceiverChain_cached hd hold]
      rw [if_neg hnear]

theorem keysAt_error_of_behind {c : Config} {now : UInt64} {s : State} {their : PublicKey}
    {chain : ChainKey} {counter : UInt32} (behind : counter < chain.index)
    (gone : s.skipped.take? their counter = none) :
    keysAt c now s their chain counter = .error (.message (.duplicate chain.index counter)) := by
  simp [keysAt, behind, takeKeys?, gone]

/-- A message reads as a plaintext: its version is the state's, its keys are
supplied, its tag is right and its body decrypts. -/
structure Reads (c : Config) (now : UInt64) (s : State) (m : RatchetMessage) (e : Entropy)
    (plain : Bytes) (after : State) (e' : Entropy) : Prop where
  version : m.version = s.version
  steps : ∃ chain ready keys taken,
    Ready c (s.expire c now) m.ratchetKey e chain ready e' ∧
    keysAt c now ready m.ratchetKey chain m.counter = .ok (keys, taken) ∧
    m.verify taken.remoteIdentity taken.localIdentity keys.macKey.toList = true ∧
    Cbc.decrypt (Suite.cipher keys.cipherKey) keys.iv m.body = some plain ∧
    after = { taken with pending := none }

theorem decrypt_ok {c : Config} {now : UInt64} {s after : State} {m : RatchetMessage}
    {e e' : Entropy} {plain : Bytes} :
    outcome (s.decrypt c now m) e = (.ok (plain, after), e') ↔
      s.Reads c now m e plain after e' := by
  constructor
  · intro h
    unfold decrypt at h
    by_cases version : m.version = s.version
    · rw [if_neg (not_not_intro version)] at h
      obtain ⟨⟨chain, ready⟩, e₁, hready, h⟩ := outcome_bind_ok.mp h
      obtain ⟨⟨keys, taken⟩, e₂, hsupply, h⟩ := outcome_bind_ok.mp h
      obtain ⟨hkeys, rfl⟩ := Prod.mk.inj hsupply
      simp only at h
      by_cases hverify : m.verify taken.remoteIdentity taken.localIdentity keys.macKey.toList = true
      · rw [if_neg (by simp [hverify])] at h
        cases hplain : Cbc.decrypt (Suite.cipher keys.cipherKey) keys.iv m.body with
        | none => simp [hplain] at h
        | some text =>
          simp only [hplain, outcome_pure, Prod.mk.injEq, Except.ok.injEq] at h
          obtain ⟨⟨rfl, rfl⟩, rfl⟩ := h
          exact ⟨version, chain, ready, keys, taken, receivingChain_ok.mp hready, hkeys,
            hverify, hplain, rfl⟩
      · rw [if_pos (by simp [hverify])] at h
        simp at h
    · rw [if_pos version] at h
      simp at h
  · rintro ⟨version, chain, ready, keys, taken, hready, hkeys, hverify, hplain, rfl⟩
    rw [← receivingChain_ok] at hready
    unfold decrypt
    simp [outcome_bind, version, hready, hkeys, hverify, hplain]

/-- The chain of a ratchet key: the one that is held, else the one that a ratchet step makes. -/
def chainFor? (s : State) (their : PublicKey) : Option ChainKey :=
  (s.receiverChain? their).or
    ((s.rootKey.createChain their s.sender.keyPair.privateKey).toOption.map Prod.snd)

/-- The keys that a state has for the message at a counter, whether or not they
fit: cached ones if the chain is past it, else those of a link of the chain. -/
def keysFor? (s : State) (their : PublicKey) (counter : UInt32) : Option MessageKeys :=
  (s.chainFor? their).bind fun chain =>
    if counter < chain.index then (s.skipped.take? their counter).map Prod.fst
    else some (chain.advance (counter - chain.index).toNat).messageKeys

theorem Ready.chainFor? {c : Config} {s t : State} {their : PublicKey} {e e' : Entropy}
    {chain : ChainKey} (h : Ready c s their e chain t e') : s.chainFor? their = some chain := by
  cases h with
  | held hold => rw [State.chainFor?, hold, Option.some_or]
  | stepped new receive =>
    rw [State.chainFor?, new, receive]
    rfl

/-- Keys come from the cache if the chain is past the message, else from the chain. -/
theorem keys_of_keysAt {c : Config} {now : UInt64} {s t : State} {their : PublicKey}
    {chain : ChainKey} {counter : UInt32} {keys : MessageKeys}
    (h : keysAt c now s their chain counter = .ok (keys, t)) :
    if counter < chain.index then (s.skipped.take? their counter).map Prod.fst = some keys
    else keys = (chain.advance (counter - chain.index).toNat).messageKeys := by
  unfold keysAt at h
  by_cases hlt : counter < chain.index
  · rw [if_pos hlt] at h ⊢
    cases htake : s.takeKeys? their counter with
    | none => rw [htake] at h; cases h
    | some taken =>
      rw [htake] at h
      cases h
      obtain ⟨found, hfound, heq⟩ := Option.map_eq_some_iff.mp htake
      rw [hfound]
      exact congrArg some (congrArg Prod.fst heq)
  · rw [if_neg hlt] at h ⊢
    simp only at h
    split at h
    · cases h
    · split at h <;> cases h
      rfl

/-- What a ready state takes is what there was for the message before it was ready. -/
theorem Ready.keysFor? {c : Config} {now : UInt64} {s t taken : State} {their : PublicKey}
    {e e' : Entropy} {chain : ChainKey} (h : Ready c s their e chain t e') {counter : UInt32}
    {keys : MessageKeys} (hkeys : keysAt c now t their chain counter = .ok (keys, taken)) :
    s.keysFor? their counter = some keys := by
  have hkeys := keys_of_keysAt hkeys
  rw [State.keysFor?, h.chainFor?, Option.bind_some]
  by_cases hlt : counter < chain.index
  · rw [if_pos hlt] at hkeys ⊢
    cases h with
    | held => exact hkeys
    | stepped _ receive =>
      -- a chain that was just made starts at zero
      rw [RootKey.createChain_index receive] at hlt
      exact absurd hlt UInt32.not_lt_zero
  · rw [if_neg hlt] at hkeys ⊢
    rw [hkeys]

/-- A message opens under the keys that the state has for it. -/
theorem Reads.keysFor? {c : Config} {now : UInt64} {s after : State} {m : RatchetMessage}
    {e e' : Entropy} {plain : Bytes} (h : s.Reads c now m e plain after e') :
    ∃ keys, (s.expire c now).keysFor? m.ratchetKey m.counter = some keys ∧
      m.OpensUnder keys plain := by
  obtain ⟨-, chain, ready, keys, taken, hready, hkeys, hverify, hplain, -⟩ := h
  exact ⟨keys, hready.keysFor? hkeys, ⟨_, _, hverify⟩, hplain⟩

/-- The message that a state writes next. -/
def written (s : State) (plain : Bytes) : RatchetMessage :=
  let keys := s.sender.chain.messageKeys
  .make s.version keys.macKey.toList s.senderRatchetKey s.sender.chain.index s.previousCounter
    (Cbc.encrypt (Suite.cipher keys.cipherKey) keys.iv plain) s.localIdentity s.remoteIdentity

/-- The message as it is sent: wrapped while the peer has not answered. -/
def wrapped (s : State) (plain : Bytes) : Message :=
  match s.pending with
  | some p => .preKey (.make s.version s.localRegistrationId p.preKeyId p.signedPreKeyId p.baseKey
      s.localIdentity (s.written plain))
  | none => .ratchet (s.written plain)

@[simp] theorem inner_wrapped (s : State) (plain : Bytes) :
    (s.wrapped plain).inner = s.written plain := by
  unfold wrapped
  cases s.pending <;> rfl

theorem encrypt_ok {s t : State} {plain : Bytes} {m : Message} :
    s.encrypt plain = .ok (m, t) ↔
      s.sender.chain.index.toNat ≠ UInt32.size - 1 ∧ m = s.wrapped plain ∧
        t = s.setSenderChain s.sender.chain.next := by
  unfold encrypt
  by_cases hend : s.sender.chain.index.toNat = UInt32.size - 1
  · simp [hend]
  · simp only [hend, if_false, Except.ok.injEq, Prod.mk.injEq, ne_eq, not_false_eq_true, true_and]
    exact and_congr eq_comm eq_comm

theorem Ready.sameSession {c : Config} {s t : State} {their : PublicKey} {e e' : Entropy}
    {chain : ChainKey} (h : Ready c s their e chain t e') : s.SameSession t := by
  cases h <;> constructor <;> rfl

/-- Taking message keys changes the chains and the cache alone, and no chain is lost. -/
theorem keysAt_eq {c : Config} {now : UInt64} {s t : State} {their : PublicKey} {chain : ChainKey}
    {counter : UInt32} {keys : MessageKeys}
    (h : keysAt c now s their chain counter = .ok (keys, t)) :
    t = { s with receivers := t.receivers, skipped := t.skipped } ∧
      t.receivers.length = s.receivers.length := by
  unfold keysAt at h
  split at h
  · cases htake : s.takeKeys? their counter with
    | none => rw [htake] at h; cases h
    | some taken =>
      rw [htake] at h
      cases h
      obtain ⟨_, -, heq⟩ := Option.map_eq_some_iff.mp htake
      cases heq
      exact ⟨rfl, rfl⟩
  · simp only [cacheLinks_eq, setReceiverChain] at h
    split at h
    · cases h
    · split at h
      · next hset =>
        cases h
        split at hset
        · next hreceivers =>
          cases hset
          exact ⟨rfl, length_setReceiver hreceivers⟩
        · cases hset
      · cases h

theorem sameSession_of_keysAt {c : Config} {now : UInt64} {s t : State} {their : PublicKey}
    {chain : ChainKey} {counter : UInt32} {keys : MessageKeys}
    (h : keysAt c now s their chain counter = .ok (keys, t)) :
    s.SameSession t := by
  rw [(keysAt_eq h).1]
  constructor <;> rfl

theorem Reads.sameSession {c : Config} {now : UInt64} {s after : State} {m : RatchetMessage}
    {e e' : Entropy} {plain : Bytes} (h : s.Reads c now m e plain after e') :
    s.SameSession after := by
  obtain ⟨-, chain, ready, keys, taken, hready, hkeys, -, -, rfl⟩ := h
  have htaken :=
    ((sameSession_expire c now s).trans hready.sameSession).trans (sameSession_of_keysAt hkeys)
  exact ⟨htaken.1, htaken.2, htaken.3, htaken.4, htaken.5, htaken.6⟩

theorem Reads.pending {c : Config} {now : UInt64} {s after : State} {m : RatchetMessage}
    {e e' : Entropy} {plain : Bytes} (h : s.Reads c now m e plain after e') :
    after.pending = none := by
  obtain ⟨-, chain, ready, keys, taken, -, -, -, -, rfl⟩ := h
  rfl

theorem sameSession_encrypt {s t : State} {plain : Bytes} {m : Message}
    (h : s.encrypt plain = .ok (m, t)) :
    s.SameSession t := by
  obtain ⟨-, -, rfl⟩ := encrypt_ok.mp h
  constructor <;> rfl

end State

end DoubleRatchet
