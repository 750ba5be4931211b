import DoubleRatchet.Entropy
import DoubleRatchet.Session.Ladder

/-!
# Links of a chain

`ChainKey.advance` as iteration of `ChainKey.next`, and the index of the link a
number of steps on. Below `2 ^ 32` links no index wraps, so a link is known by
the start of its chain and its index.
-/
namespace DoubleRatchet

/-- The greatest index or counter there is. -/
theorem toNat_lt_size (n : UInt32) : n.toNat < UInt32.size := n.toNat_lt

/-- Adding one to a number that is not the greatest one. -/
theorem toNat_succ {n : UInt32} (h : n.toNat ≠ UInt32.size - 1) : (n + 1).toNat = n.toNat + 1 := by
  have hn := toNat_lt_size n
  rw [UInt32.toNat_add]
  simp only [UInt32.reduceToNat, UInt32.size] at *
  omega

/-- The distance from a number to a later one. -/
theorem toNat_sub {m n : UInt32} (h : ¬m < n) : (m - n).toNat = m.toNat - n.toNat := by
  rw [UInt32.lt_iff_toNat_lt] at h
  exact UInt32.toNat_sub_of_le _ _ (UInt32.le_iff_toNat_le.mpr (by omega))

/-- A counter that is not behind an index is the index and the jump to it. -/
theorem toNat_eq_add_jump {n i : UInt32} (ahead : ¬n < i) (short : n.toNat ≠ UInt32.size - 1) :
    n.toNat = i.toNat + (n - i).toNat ∧ n.toNat + 1 < UInt32.size := by
  have hsub := toNat_sub ahead
  have hlt := toNat_lt_size n
  rw [UInt32.lt_iff_toNat_lt] at ahead
  omega

variable [Suite]

namespace ChainKey

@[simp] theorem advance_zero (c : ChainKey) : c.advance 0 = c := rfl

theorem advance_add (m n : Nat) (c : ChainKey) : c.advance (m + n) = (c.advance m).advance n := by
  induction m generalizing c with
  | zero => rw [Nat.zero_add, advance_zero]
  | succ m ih => rw [Nat.succ_add]; exact ih c.next

theorem next_advance (n : Nat) (c : ChainKey) : (c.advance n).next = c.advance (n + 1) := by
  rw [advance_add]; rfl

@[simp] theorem next_index (c : ChainKey) : c.next.index = c.index + 1 := rfl

theorem advance_index (n : Nat) (c : ChainKey) :
    (c.advance n).index = c.index + UInt32.ofNat n := by
  induction n generalizing c with
  | zero => simp
  | succ n ih =>
    have h := ih c.next
    rw [next_index, UInt32.add_assoc, UInt32.add_comm 1] at h
    rw [UInt32.ofNat_add]
    exact h

/-- The index counts the steps as long as it does not wrap. -/
theorem advance_index_toNat {c : ChainKey} {n : Nat} (h : c.index.toNat + n < UInt32.size) :
    (c.advance n).index.toNat = c.index.toNat + n := by
  have hn : (UInt32.ofNat n).toNat = n := UInt32.toNat_ofNat_of_lt' (by omega)
  rw [advance_index, UInt32.toNat_add, hn]
  exact Nat.mod_eq_of_lt h

end ChainKey

/-- From a start at index zero the index of a link counts the links before it. -/
theorem index_of_start {chain : ChainKey} (h : chain.index = 0) {t : Nat} (ht : t < UInt32.size) :
    (chain.advance t).index.toNat = t := by
  rw [ChainKey.advance_index_toNat] <;> simp [h]
  exact ht

theorem RootKey.createChain_ok {root root' : RootKey} {their : PublicKey} {our : PrivateKey}
    {chain : ChainKey} :
    root.createChain their our = .ok (root', chain) ↔
      ∃ secret, Suite.agree our their = some secret ∧
        RootKey.split (Hkdf.derive root.key.toList secret.toList (utf8 "WhisperRatchet") 64) =
          (root', chain) := by
  unfold createChain PrivateKey.agree
  cases Suite.agree our their <;> simp [bind, Except.bind, pure, Except.pure]

theorem RootKey.createChain_error {root : RootKey} {their : PublicKey} {our : PrivateKey}
    {fault : KeyFault} :
    root.createChain their our = .error fault ↔
      Suite.agree our their = none ∧ fault = .lowOrder := by
  unfold createChain PrivateKey.agree
  cases Suite.agree our their <;> simp [bind, Except.bind, pure, Except.pure, eq_comm]

/-- A chain starts at index zero. -/
theorem RootKey.createChain_index {root root' : RootKey} {their : PublicKey} {our : PrivateKey}
    {chain : ChainKey} (h : root.createChain their our = .ok (root', chain)) : chain.index = 0 := by
  obtain ⟨secret, -, hs⟩ := createChain_ok.mp h
  exact congrArg (fun p => ChainKey.index p.2) hs.symm

end DoubleRatchet
