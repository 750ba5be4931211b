import DoubleRatchet.Proofs.Session.Ladder
import DoubleRatchet.Proofs.Session.SkippedKeys
import DoubleRatchet.Session.Exchange
import Mathlib.Data.List.Nodup

/-!
# The receiver chains of a state

Looking up and setting the chain of a ratchet key, adding a chain within a
bound, and caching the keys of successive links, each in terms of the chains
and entries that the state holds afterwards.
-/
namespace DoubleRatchet.State

theorem mem_of_receiverChain? {s : State} {r : PublicKey} {chain : ChainKey}
    (h : s.receiverChain? r = some chain) : ⟨r, chain⟩ ∈ s.receivers := by
  obtain ⟨ch, hch, rfl⟩ := Option.map_eq_some_iff.mp h
  have hr : ch.ratchetKey = r := by simpa using List.find?_some hch
  have hm := List.mem_of_find?_eq_some hch
  rw [← hr]
  exact hm

theorem receiverChain?_eq_none {s : State} {r : PublicKey} :
    s.receiverChain? r = none ↔ ∀ ch ∈ s.receivers, ch.ratchetKey ≠ r := by
  simp [receiverChain?]

theorem hasReceiverChain_iff {s : State} {r : PublicKey} :
    s.hasReceiverChain r = true ↔ r ∈ s.receivers.map ReceiverChain.ratchetKey := by
  simp [hasReceiverChain, receiverChain?]

/-- With distinct ratchet keys the chain that is looked up is the only one of its key. -/
theorem receiverChain?_of_mem {s : State} (hd : (s.receivers.map ReceiverChain.ratchetKey).Nodup)
    {ch : ReceiverChain} (h : ch ∈ s.receivers) :
    s.receiverChain? ch.ratchetKey = some ch.chain := by
  cases hf : s.receiverChain? ch.ratchetKey with
  | none => exact absurd rfl (receiverChain?_eq_none.mp hf ch h)
  | some chain =>
    have hm := mem_of_receiverChain? hf
    have heq := List.inj_on_of_nodup_map hd hm h rfl
    rw [← heq]

theorem receiverChain?_eq_some {s : State} (hd : (s.receivers.map ReceiverChain.ratchetKey).Nodup)
    {r : PublicKey} {chain : ChainKey} :
    s.receiverChain? r = some chain ↔ ⟨r, chain⟩ ∈ s.receivers :=
  ⟨mem_of_receiverChain?, receiverChain?_of_mem hd⟩

/-- The chains after the one of a ratchet key is set. -/
def moved (r : PublicKey) (chain : ChainKey) (chs : List ReceiverChain) : List ReceiverChain :=
  chs.map fun ch => if ch.ratchetKey = r then ⟨r, chain⟩ else ch

theorem moved_of_notMem {r : PublicKey} {chain : ChainKey} {chs : List ReceiverChain}
    (h : r ∉ chs.map ReceiverChain.ratchetKey) : moved r chain chs = chs := by
  refine (List.map_congr_left fun ch hch => ?_).trans (List.map_id chs)
  have hne : ch.ratchetKey ≠ r := by
    intro hr
    exact h (hr ▸ List.mem_map_of_mem hch)
  exact if_neg hne

/-- With distinct ratchet keys, setting a chain replaces the one of its key. -/
theorem setReceiver_eq {r : PublicKey} {chain : ChainKey} {chs : List ReceiverChain}
    (hd : (chs.map ReceiverChain.ratchetKey).Nodup) (hr : r ∈ chs.map ReceiverChain.ratchetKey) :
    setReceiver r chain chs = some (moved r chain chs) := by
  induction chs with
  | nil => simp at hr
  | cons ch chs ih =>
    rw [List.map_cons, List.nodup_cons] at hd
    by_cases hc : ch.ratchetKey = r
    · have hrest : moved r chain chs = chs := moved_of_notMem (hc ▸ hd.1)
      rw [moved, List.map_cons, ← moved, hrest, if_pos hc, setReceiver, if_pos hc, hc]
    · have hr' : r ∈ chs.map ReceiverChain.ratchetKey := by
        rcases List.mem_cons.mp hr with h | h
        · exact absurd h.symm hc
        · exact h
      rw [moved, List.map_cons, ← moved, if_neg hc, setReceiver, if_neg hc,
        ih hd.2 hr', Option.map_some]

theorem setReceiver_of_mem {r : PublicKey} {chs : List ReceiverChain}
    (h : r ∈ chs.map ReceiverChain.ratchetKey) (chain : ChainKey) :
    ∃ chs', setReceiver r chain chs = some chs' := by
  induction chs with
  | nil => simp at h
  | cons ch chs ih =>
    by_cases hc : ch.ratchetKey = r
    · exact ⟨_, by rw [setReceiver, if_pos hc]⟩
    · have hrest : r ∈ chs.map ReceiverChain.ratchetKey := by
        rcases List.mem_cons.mp h with heq | hmem
        · exact absurd heq.symm hc
        · exact hmem
      obtain ⟨chs', hset⟩ := ih hrest
      exact ⟨ch :: chs', by rw [setReceiver, if_neg hc, hset, Option.map_some]⟩

theorem length_setReceiver {r : PublicKey} {chain : ChainKey} {chs chs' : List ReceiverChain}
    (h : setReceiver r chain chs = some chs') : chs'.length = chs.length := by
  induction chs generalizing chs' with
  | nil => cases h
  | cons ch chs ih =>
    rw [setReceiver] at h
    split at h
    · cases h
      rfl
    · obtain ⟨rest, hrest, rfl⟩ := Option.map_eq_some_iff.mp h
      exact congrArg (· + 1) (ih hrest)

@[simp] theorem ratchetKeys_moved (r : PublicKey) (chain : ChainKey) (chs : List ReceiverChain) :
    (moved r chain chs).map ReceiverChain.ratchetKey = chs.map ReceiverChain.ratchetKey := by
  rw [moved, List.map_map]
  refine List.map_congr_left fun ch _ => ?_
  by_cases h : ch.ratchetKey = r
  · rw [Function.comp_apply, if_pos h]; exact h.symm
  · rw [Function.comp_apply, if_neg h]

theorem mem_moved {r : PublicKey} {chain : ChainKey} {chs : List ReceiverChain} {ch : ReceiverChain}
    (h : ch ∈ moved r chain chs) : ch = ⟨r, chain⟩ ∨ ch ∈ chs ∧ ch.ratchetKey ≠ r := by
  obtain ⟨x, hx, rfl⟩ := List.mem_map.mp h
  by_cases hr : x.ratchetKey = r
  · rw [if_pos hr]; exact .inl rfl
  · rw [if_neg hr]; exact .inr ⟨hx, hr⟩

theorem mem_moved_of_ne {r : PublicKey} {chain : ChainKey} {chs : List ReceiverChain}
    {ch : ReceiverChain} (h : ch ∈ chs) (hr : ch.ratchetKey ≠ r) : ch ∈ moved r chain chs :=
  List.mem_map.mpr ⟨ch, h, if_neg hr⟩

theorem mem_moved_self {r : PublicKey} {chain : ChainKey} {chs : List ReceiverChain}
    (h : r ∈ chs.map ReceiverChain.ratchetKey) : ⟨r, chain⟩ ∈ moved r chain chs := by
  obtain ⟨ch, hch, hr⟩ := List.mem_map.mp h
  exact List.mem_map.mpr ⟨ch, hch, if_pos hr⟩

/-- How many chains go when one more is added within a bound. -/
def excess (s : State) (bound : Nat) : Nat := s.receivers.length + 1 - max bound 1

/-- The chain that is added is never among those dropped for it. -/
theorem excess_le (s : State) (bound : Nat) : s.excess bound ≤ s.receivers.length := by
  have h : 1 ≤ max bound 1 := Nat.le_max_right bound 1
  unfold excess
  omega

/-- The ratchet keys of the chains dropped when one more is added. -/
def dropped (s : State) (bound : Nat) : List PublicKey :=
  (s.receivers.take (s.excess bound)).map ReceiverChain.ratchetKey

theorem addReceiverChain_eq (s : State) (r : PublicKey) (chain : ChainKey) (bound : Nat) :
    (s.addReceiverChain r chain bound).2 = { s with
      receivers := s.receivers.drop (s.excess bound) ++ [⟨r, chain⟩]
      skipped := (s.dropped bound).foldl (fun c key => (c.purge key).2) s.skipped } := by
  have hle := s.excess_le bound
  have hlen :
      (s.receivers ++ [(⟨r, chain⟩ : ReceiverChain)]).length - max bound 1 = s.excess bound := by
    rw [List.length_append]; rfl
  simp only [addReceiverChain, withReceiverChain, trimReceivers, hlen]
  rw [List.take_append_of_le_length hle, List.drop_append_of_le_length hle]
  rfl

variable [Suite]

/-- Caches the keys of a number of links of a chain, without the rest of the state. -/
def cacheAll (capacity : Nat) (now : UInt64) (r : PublicKey) :
    (count : Nat) → ChainKey → SkippedKeys → SkippedKeys
  | 0, _, c => c
  | count + 1, chain,
      c => cacheAll capacity now r count chain.next (c.insert r chain.messageKeys now capacity).2

theorem cacheLinks_eq (c : Config) (now : UInt64) (r : PublicKey) (count : Nat) (chain : ChainKey)
    (s : State) :
    cacheLinks c now r count chain s =
      { s with skipped := cacheAll c.maxSkippedKeys now r count chain s.skipped } := by
  induction count generalizing chain s with
  | zero => rfl
  | succ count ih => rw [cacheLinks, ih]; rfl

/-- What is cached afterwards was cached before or belongs to one of the links. -/
theorem mem_cacheAll {capacity : Nat} {now : UInt64} {r : PublicKey} {count : Nat}
    {chain : ChainKey} {c : SkippedKeys} {e : SkippedKey}
    (h : e ∈ (cacheAll capacity now r count chain c).entries) :
    e ∈ c.entries ∨ ∃ i < count, e = ⟨r, (chain.advance i).messageKeys, now⟩ := by
  induction count generalizing chain c with
  | zero => exact .inl h
  | succ count ih =>
    rcases ih h with h | ⟨i, hi, rfl⟩
    · rcases SkippedKeys.mem_insert h with h | h
      · exact .inl h
      · exact .inr ⟨0, by omega, h⟩
    · exact .inr ⟨i + 1, by omega, rfl⟩

theorem distinct_cacheAll {capacity : Nat} {now : UInt64} {r : PublicKey} {count : Nat}
    {chain : ChainKey} {c : SkippedKeys} (h : c.Distinct) :
    (cacheAll capacity now r count chain c).Distinct := by
  induction count generalizing chain c with
  | zero => exact h
  | succ count ih => exact ih (h.insert _ _ _ _)

end DoubleRatchet.State
