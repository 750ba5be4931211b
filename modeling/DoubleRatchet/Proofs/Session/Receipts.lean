import DoubleRatchet.Proofs.Session.Expiry

/-!
# What a state receives

A state is used by one attempt after another: it writes messages, reads some
and refuses others. Each message that it reads leaves a receipt, which tells at
what time it was read, whether a receiver chain was added for it, how many keys
were cached on the way to it, and whether its own key was a cached one. A
receipt is computed from the state and the message alone.
-/
namespace DoubleRatchet

/-- What a state does for a message that it reads. -/
structure Receipt where
  now : UInt64
  ratchetKey : PublicKey
  counter : UInt32
  /-- Whether a receiver chain is added for the ratchet key. -/
  added : Bool
  /-- How many keys are cached. -/
  cached : Nat
  /-- Whether the key of the message comes from the cache. -/
  taken : Bool
deriving DecidableEq

def Receipt.name (v : Receipt) : PublicKey × UInt32 := (v.ratchetKey, v.counter)

namespace State

/-- The index of the chain on which a message is read; a chain that is added starts at zero. -/
def indexOf (s : State) (r : PublicKey) : UInt32 := ((s.receiverChain? r).map ChainKey.index).getD 0

/-- The receipt for a message that a state reads. -/
def receipt (s : State) (now : UInt64) (m : RatchetMessage) : Receipt where
  now
  ratchetKey := m.ratchetKey
  counter := m.counter
  added := !s.hasReceiverChain m.ratchetKey
  cached := m.counter.toNat - (s.indexOf m.ratchetKey).toNat
  taken := m.counter < s.indexOf m.ratchetKey

variable [Suite]

/-- A run of a state from one state to another, with the receipts of the messages
that are read, the first one first. A message that is refused leaves the state as it is. -/
inductive Runs (c : Config) (own : State) : List Receipt → State → Prop
  | start : Runs c own [] own
  | writes {history : List Receipt} {s t : State} {plain : Bytes} {m : Message}
      (run : Runs c own history s)
      (written : s.encrypt plain = .ok (m, t)) : Runs c own history t
  | reads {history : List Receipt} {s t : State} {now : UInt64} {m : RatchetMessage}
      {e e' : Entropy} {plain : Bytes}
      (run : Runs c own history s) (read : outcome (s.decrypt c now m) e = (.ok (plain, t), e')) :
      Runs c own (history ++ [s.receipt now m]) t
  | refuses {history : List Receipt} {s : State} {now : UInt64}
      {m : RatchetMessage} {e e' : Entropy}
      {fault : SessionError} (run : Runs c own history s)
      (refused : outcome (s.decrypt c now m) e = (.error fault, e')) : Runs c own history s

namespace Runs

variable {c : Config} {own s : State} {h : List Receipt}

theorem coherent (hown : own.Coherent) (run : own.Runs c h s) : s.Coherent := by
  induction run with
  | start => exact hown
  | writes _ written ih => exact ih.encrypt written
  | reads _ read ih => exact (ih.reads (decrypt_ok.mp read)).1
  | refuses _ _ ih => exact ih

end Runs

omit [Suite] in
theorem indexOf_expire (c : Config) (now : UInt64) (s : State) (r : PublicKey) :
    (s.expire c now).indexOf r = s.indexOf r := by
  rw [indexOf, receiverChain?_expire, indexOf]

omit [Suite] in
theorem hasReceiverChain_expire (c : Config) (now : UInt64) (s : State) (r : PublicKey) :
    (s.expire c now).hasReceiverChain r = s.hasReceiverChain r := by
  rw [hasReceiverChain, receiverChain?_expire, hasReceiverChain]

/-- Whoever stands ready stands at the index that the receipt goes by. -/
theorem Ready.index {c : Config} {s t : State} {their : PublicKey} {e e' : Entropy}
    {chain : ChainKey} (h : Ready c s their e chain t e') : chain.index = s.indexOf their := by
  cases h with
  | held hold => simp [indexOf, hold]
  | stepped new receive => simp [indexOf, new, RootKey.createChain_index receive]

/-- The parts of a reading on a coherent state: the stale keys go, then the state
stands ready with a chain, then that chain or the cache supplies the keys. -/
structure Phases (c : Config) (now : UInt64) (s : State) (m : RatchetMessage) (e : Entropy)
    (chain : ChainKey) (ready taken : State) (e' : Entropy) : Prop where
  stands : Ready c (s.expire c now) m.ratchetKey e chain ready e'
  coherent : ready.Coherent
  hold : ready.receiverChain? m.ratchetKey = some chain
  index : chain.index = s.indexOf m.ratchetKey
  supplied : ∃ keys, Supplied c now ready m.ratchetKey chain m.counter keys taken

theorem Coherent.phases {c : Config} {now : UInt64} {s after : State} {m : RatchetMessage}
    {e e' : Entropy} {plain : Bytes} (h : s.Coherent) (hr : s.Reads c now m e plain after e') :
    ∃ chain ready taken, s.Phases c now m e chain ready taken e' ∧
      after = { taken with pending := none } := by
  obtain ⟨-, chain, ready, keys, taken, hready, hkeys, -, -, rfl⟩ := hr
  obtain ⟨hcoherent, hold⟩ := (h.expire c now).ready hready
  have hindex := hready.index.trans (indexOf_expire c now s m.ratchetKey)
  exact ⟨chain, ready, taken,
    ⟨hready, hcoherent, hold, hindex, keys, (keysAt_ok hcoherent.chains hold).mp hkeys⟩, rfl⟩

end State

end DoubleRatchet
