import DoubleRatchet.Proofs.Session.Receipts

/-!
# Counters do not wrap

Chain indexes and message counters are numbers of 32 bits, and a message is cut
in front of its tag. Below, writing and reading are spelled out a second time in
arithmetic that fails where a sum or a difference leaves its range, with the
loop that caches keys as it runs, up to the counter of the message. On whatever
state they are done, neither fails: each guard keeps its sum or difference in
range, and what comes of it is what `State.encrypt` and `State.decrypt` give.
-/
namespace DoubleRatchet

/-- How arithmetic leaves its range. -/
inductive Wrap
  | overflow
  | underflow
deriving DecidableEq

namespace Checked

def add (a b : UInt32) : Except Wrap UInt32 :=
  if a.toNat + b.toNat < UInt32.size then .ok (a + b) else .error .overflow

def sub (a b : UInt32) : Except Wrap UInt32 := if b ≤ a then .ok (a - b) else .error .underflow

/-- The difference of two lengths. -/
def subLength (a b : Nat) : Except Wrap Nat := if b ≤ a then .ok (a - b) else .error .underflow

end Checked

namespace RatchetMessage

/-- A message that was made from its parts or read from bytes. -/
inductive Valid [Suite] : RatchetMessage → Prop
  | made (version : UInt8) (macKey : Bytes) (ratchetKey : PublicKey)
      (counter previousCounter : UInt32) (body : Bytes)
      (sender receiver : PublicKey) :
      Valid (make version macKey ratchetKey counter previousCounter body sender receiver)
  | read {bs : Bytes} {m : RatchetMessage} (parsed : parse bs = .ok m) : Valid m

theorem tagLength_le_of_parse {bs : Bytes} {m : RatchetMessage} (h : parse bs = .ok m) :
    tagLength ≤ bs.length := by
  unfold parse at h
  split at h
  · cases h
  · next first rest =>
    by_cases hshort : (first :: rest).length < tagLength + 1
    · rw [if_pos hshort] at h
      cases h
    · omega

variable [Suite]

/-- There is a whole tag at the end of a message. -/
theorem Valid.tagLength_le {m : RatchetMessage} (h : m.Valid) :
    tagLength ≤ m.serialized.length := by
  cases h with
  | made =>
    simp only [make, List.length_append, length_tag]
    exact Nat.le_add_left _ _
  | read parsed =>
    rw [(parse_ok parsed).2]
    exact tagLength_le_of_parse parsed

/-- Whether the tag is right, with the place at which it begins in checked arithmetic. -/
def verifyChecked (m : RatchetMessage) (sender receiver : PublicKey)
    (macKey : Bytes) : Except Wrap Bool := do
  let split ← Checked.subLength m.serialized.length tagLength
  return tag sender receiver macKey (m.serialized.take split) = m.serialized.drop split

theorem Valid.verifyChecked {m : RatchetMessage} (h : m.Valid) (sender receiver : PublicKey)
    (macKey : Bytes) :
    m.verifyChecked sender receiver macKey = .ok (m.verify sender receiver macKey) := by
  rw [RatchetMessage.verifyChecked, Checked.subLength, if_pos h.tagLength_le]
  rfl

end RatchetMessage

variable [Suite]

namespace ChainKey

/-- The next link of the chain, with its index in checked arithmetic. -/
def nextChecked (c : ChainKey) : Except Wrap ChainKey := do
  return ⟨Suite.mac c.key.toList [2], ← Checked.add c.index 1⟩

/-- A chain goes on as long as it is not at the greatest index. -/
theorem nextChecked_eq {c : ChainKey} (h : c.index.toNat + 1 < UInt32.size) :
    c.nextChecked = .ok c.next := by
  have hadd : Checked.add c.index 1 = .ok (c.index + 1) := if_pos h
  rw [nextChecked, hadd]
  rfl

theorem nextChecked_exhausted {c : ChainKey} (h : c.index.toNat = UInt32.size - 1) :
    c.nextChecked = .error .overflow := by
  have hadd : Checked.add c.index 1 = .error .overflow := if_neg (by rw [h]; decide)
  rw [nextChecked, hadd]
  rfl

/-- Where it goes on, its index is one more. -/
theorem index_of_nextChecked {c next : ChainKey} (h : c.nextChecked = .ok next) :
    next.index.toNat = c.index.toNat + 1 := by
  have hsize := toNat_lt_size c.index
  by_cases hend : c.index.toNat = UInt32.size - 1
  · rw [nextChecked_exhausted hend] at h
    cases h
  · rw [nextChecked_eq (by omega)] at h
    cases h
    exact toNat_succ hend

/-- So it comes closer to a counter that it is behind. -/
theorem closer_of_nextChecked {c next : ChainKey} {counter : UInt32} (h : c.nextChecked = .ok next)
    (behind : c.index < counter) :
    counter.toNat - next.index.toNat < counter.toNat - c.index.toNat := by
  rw [UInt32.lt_iff_toNat_lt] at behind
  rw [index_of_nextChecked h]
  omega

end ChainKey

namespace State

/-- The next message of a state, in checked arithmetic. -/
def encryptChecked (s : State)
    (plain : Bytes) : Except Wrap (Except SessionError (Message × State)) :=
  let chain := s.sender.chain
  if chain.index.toNat = UInt32.size - 1 then
    .ok (.error (.session (.invalidState .senderChainExhausted)))
  else do
    let message := s.wrapped plain
    return .ok (message, s.setSenderChain (← chain.nextChecked))

theorem encryptChecked_eq (s : State) (plain : Bytes) :
    s.encryptChecked plain = .ok (s.encrypt plain) := by
  unfold encryptChecked
  by_cases hend : s.sender.chain.index.toNat = UInt32.size - 1
  · rw [if_pos hend, encrypt, if_pos hend]
  · have hsize := toNat_lt_size s.sender.chain.index
    rw [if_neg hend, ChainKey.nextChecked_eq (by omega), encrypt_ok.mpr ⟨hend, rfl, rfl⟩]
    rfl

/-- Caches the keys of a chain up to a message, and gives the link that it comes to. -/
def cacheToChecked (c : Config) (now : UInt64) (their : PublicKey) (counter : UInt32)
    (chain : ChainKey) (s : State) :
    Except Wrap (ChainKey × State) :=
  if _ : chain.index < counter then
    match _ : chain.nextChecked with
    | .ok next => cacheToChecked c now their counter
        next (s.cacheKeys their chain.messageKeys now c.maxSkippedKeys).2
    | .error wrap => .error wrap
  else .ok (chain, s)
termination_by counter.toNat - chain.index.toNat
decreasing_by exact ChainKey.closer_of_nextChecked ‹_› ‹_›

/-- As many links on as the message is ahead, none of which is the last of its chain. -/
theorem cacheToChecked_eq {c : Config} {now : UInt64} {their : PublicKey} {counter : UInt32}
    {jump : Nat} {chain : ChainKey} {s : State}
    (hcounter : counter.toNat = chain.index.toNat + jump)
    (hsize : counter.toNat + 1 < UInt32.size) :
    cacheToChecked c now their counter chain s =
      .ok (chain.advance jump, cacheLinks c now their jump chain s) := by
  induction jump generalizing chain s with
  | zero =>
    rw [cacheToChecked, dif_neg (by rw [UInt32.lt_iff_toNat_lt]; omega)]
    rfl
  | succ jump ih =>
    have hnext : chain.nextChecked = .ok chain.next := ChainKey.nextChecked_eq (by omega)
    have hindex := ChainKey.index_of_nextChecked hnext
    rw [cacheToChecked, dif_pos (by rw [UInt32.lt_iff_toNat_lt]; omega)]
    split
    · next next hstep =>
      obtain rfl := Except.ok.inj (hnext.symm.trans hstep)
      exact ih (by omega)
    · next wrap hstep => cases hnext.symm.trans hstep

/-- The keys of the message at a counter, in checked arithmetic. -/
def keysAtChecked (c : Config) (now : UInt64) (s : State) (their : PublicKey) (chain : ChainKey)
    (counter : UInt32) :
    Except Wrap (Except SessionError (MessageKeys × State)) :=
  if counter < chain.index then
    match s.takeKeys? their counter with
    | some taken => .ok (.ok taken)
    | none => .ok (.error (.message (.duplicate chain.index counter)))
  else do
    let jump ← Checked.sub counter chain.index
    if c.maxForwardJump < jump ∨ counter.toNat = UInt32.size - 1 then
      return .error (.message (.tooManySkipped counter jump c.maxForwardJump))
    let (link, cached) ← cacheToChecked c now their counter chain s
    match cached.setReceiverChain their (← link.nextChecked) with
    | .ok moved => return .ok (link.messageKeys, moved)
    | .error fault => return .error (.session fault)

theorem keysAtChecked_eq (c : Config) (now : UInt64) (s : State) (their : PublicKey)
    (chain : ChainKey) (counter : UInt32) :
    keysAtChecked c now s their chain counter = .ok (keysAt c now s their chain counter) := by
  unfold keysAtChecked keysAt
  by_cases hbehind : counter < chain.index
  · simp only [if_pos hbehind]
    cases s.takeKeys? their counter <;> rfl
  · have hsub : Checked.sub counter chain.index = .ok (counter - chain.index) :=
      if_pos (UInt32.not_lt.mp hbehind)
    simp only [if_neg hbehind, hsub, bind, Except.bind, pure, Except.pure]
    by_cases hfar : c.maxForwardJump < counter - chain.index ∨ counter.toNat = UInt32.size - 1
    · rw [if_pos hfar, if_pos hfar]
    · obtain ⟨hcounter, hsize⟩ := toNat_eq_add_jump hbehind (not_or.mp hfar).2
      have hindex : (chain.advance (counter - chain.index).toNat).index.toNat = counter.toNat :=
        (ChainKey.advance_index_toNat (by omega)).trans hcounter.symm
      have hnext :=
        ChainKey.nextChecked_eq (c := chain.advance (counter - chain.index).toNat) (by omega)
      rw [if_neg hfar, if_neg hfar, cacheToChecked_eq hcounter hsize]
      simp only [hnext]
      cases (cacheLinks c now their (counter - chain.index).toNat chain s).setReceiverChain their
        (chain.advance (counter - chain.index).toNat).next <;> rfl

/-- Reads a message on a state, in checked arithmetic; also gives the random bytes that are left. -/
def decryptChecked (c : Config) (now : UInt64) (s : State) (m : RatchetMessage) (e : Entropy) :
    Except Wrap (Except SessionError (Bytes × State) × Entropy) :=
  if m.version ≠ s.version then .ok (.error (.session (.unsupportedVersion m.version)), e)
  else match outcome ((s.expire c now).receivingChain c m.ratchetKey) e with
  | (.error fault, e') => .ok (.error fault, e')
  | (.ok (chain, ready), e') => do
    match ← keysAtChecked c now ready m.ratchetKey chain m.counter with
    | .error fault => return (.error fault, e')
    | .ok (keys, taken) =>
      if !(← m.verifyChecked taken.remoteIdentity taken.localIdentity keys.macKey.toList) then
        return (.error (.message .invalid), e')
      match Cbc.decrypt (Suite.cipher keys.cipherKey) keys.iv m.body with
      | some plain => return (.ok (plain, { taken with pending := none }), e')
      | none => return (.error (.message .invalid), e')

theorem decryptChecked_eq (c : Config) (now : UInt64) (s : State) {m : RatchetMessage} (h : m.Valid)
    (e : Entropy) :
    s.decryptChecked c now m e = .ok (outcome (s.decrypt c now m) e) := by
  unfold decryptChecked decrypt
  by_cases version : m.version = s.version
  · simp only [version, ne_eq, not_true_eq_false, if_false, keysAtChecked_eq, h.verifyChecked]
    rw [outcome_bind]
    rcases outcome ((s.expire c now).receivingChain c m.ratchetKey) e with
      ⟨fault | ⟨chain, ready⟩, e'⟩
    · rfl
    · dsimp only
      rw [outcome_bind, outcome_mk]
      rcases keysAt c now ready m.ratchetKey chain m.counter with fault | ⟨keys, taken⟩
      · rfl
      · simp only [bind, Except.bind, pure, Except.pure]
        cases m.verify taken.remoteIdentity taken.localIdentity keys.macKey.toList with
        | false => rfl
        | true => cases Cbc.decrypt (Suite.cipher keys.cipherKey) keys.iv m.body <;> rfl
  · simp [version]

variable {c : Config} {now : UInt64} {s t : State} {m : RatchetMessage} {e e' : Entropy}
  {plain : Bytes}

/-- No message is read that claims to be the last one of a full chain. -/
theorem Reads.counter_lt (h : s.Reads c now m e plain t e') :
    m.counter.toNat < UInt32.size - 1 := by
  obtain ⟨-, chain, ready, keys, taken, -, hkeys, -, -, -⟩ := h
  have hcounter := toNat_lt_size m.counter
  have hindex := toNat_lt_size chain.index
  by_cases hlast : m.counter.toNat = UInt32.size - 1
  · have hahead : ¬m.counter < chain.index := by
      rw [UInt32.lt_iff_toNat_lt]
      omega
    unfold keysAt at hkeys
    simp only [if_neg hahead, if_pos (Or.inr hlast)] at hkeys
    cases hkeys
  · omega

/-- A state sends on as before after reading, unless it added a chain: then it sends
from the start of a new one. -/
theorem Reads.sender (h : s.Reads c now m e plain t e') :
    if (s.receipt now m).added then t.sender.chain.index = 0 else t.sender = s.sender := by
  obtain ⟨-, chain, ready, keys, taken, hready, hkeys, -, -, rfl⟩ := h
  have hsender : taken.sender = ready.sender := by rw [(keysAt_eq hkeys).1]
  have hexpire : (s.expire c now).sender = s.sender := by rw [expire_eq]
  change if !s.hasReceiverChain m.ratchetKey then taken.sender.chain.index = 0
    else taken.sender = s.sender
  rw [← hasReceiverChain_expire c now, hsender]
  cases hready with
  | held hold => simpa [hasReceiverChain, hold] using hexpire
  | stepped new _ send => simp [hasReceiverChain, new, ratcheted, RootKey.createChain_index send]

/-- The sender chain has come to the greatest index. -/
def Exhausted (s : State) : Prop := s.sender.chain.index.toNat = UInt32.size - 1

theorem Exhausted.encrypt (h : s.Exhausted) (plain : Bytes) :
    s.encrypt plain = .error (.session (.invalidState .senderChainExhausted)) := if_pos h

/-- A chain that is exhausted stays so until a ratchet step. -/
theorem Exhausted.runs {history : List Receipt} (h : s.Exhausted) (run : s.Runs c history t)
    (unstepped : ∀ v ∈ history, v.added = false) : t.Exhausted := by
  induction run with
  | start => exact h
  | writes _ written ih =>
    rw [(ih unstepped).encrypt] at written
    cases written
  | refuses _ _ ih => exact ih unstepped
  | reads _ read ih =>
    obtain ⟨hbefore, hlast⟩ := List.forall_mem_append.mp unstepped
    have hsender := (decrypt_ok.mp read).sender
    rw [hlast _ (List.mem_singleton_self _), if_neg Bool.false_ne_true] at hsender
    rw [Exhausted, hsender]
    exact ih hbefore

end State

end DoubleRatchet
