import DoubleRatchet.Proofs.Session.Agreement
import DoubleRatchet.Proofs.Suite
import DoubleRatchet.Proofs.Wire.Message

/-!
# The ladder of a conversation

Two parties climb one ladder of ratchet steps in turn. A rung is a key pair of
the party whose turn it was, with the root key and the chain that it made; the
next rung is reached from either side by an agreement of the two key pairs. The
even rungs are the responder's and the odd ones the initiator's. A state stands
on a rung of its own party: it sends on that rung's chain, and all its receiver
chains and cached keys are of the other party's rungs below.
-/
namespace DoubleRatchet

/-- A key pair, and what was derived when it came into use. -/
structure Rung where
  pair : KeyPair
  root : RootKey
  chain : ChainKey

namespace Rung

def key (x : Rung) : PublicKey := x.pair.publicKey

variable [Suite]

/-- The keys of the message with a number on the chain of a rung. -/
def keys (x : Rung) (i : Nat) : MessageKeys := (x.chain.advance i).messageKeys

/-- A rung leads to the next one, from the side of either key pair. -/
structure Next (x y : Rung) : Prop where
  receive : x.root.createChain y.key x.pair.privateKey = .ok (y.root, y.chain)
  send : x.root.createChain x.key y.pair.privateKey = .ok (y.root, y.chain)

end Rung

/-- The rungs of one party have different ratchet keys. -/
def Distinct (rungs : List Rung) : Prop :=
  ∀ i j x y, rungs[i]? = some x → rungs[j]? = some y → i % 2 = j % 2 → x.key = y.key → i = j

theorem getElem?_append_of_some {α : Type} {l more : List α} {i : Nat} {a : α}
    (h : l[i]? = some a) :
    (l ++ more)[i]? = some a := by
  rw [List.getElem?_append_left (List.getElem?_eq_some_iff.mp h).1]
  exact h

theorem lt_of_getElem? {α : Type} {l : List α} {i : Nat} {a : α} (h : l[i]? = some a) :
    i < l.length :=
  (List.getElem?_eq_some_iff.mp h).1

variable [Suite]

/-- Two genuine pairs make the same step from a root key, whichever side makes it. -/
theorem createChain_agrees [Suite.Lawful] {a b : KeyPair} (ha : a.Genuine) (hb : b.Genuine)
    (root : RootKey) :
    ∃ next chain, root.createChain a.publicKey b.privateKey = .ok (next, chain) ∧
      root.createChain b.publicKey a.privateKey = .ok (next, chain) := by
  obtain ⟨secret, hsecret, hsecret'⟩ := Suite.Lawful.agree a.privateKey b.privateKey
  rw [KeyPair.Genuine] at ha hb
  refine ⟨_, _, RootKey.createChain_ok.mpr ⟨secret, ?_, rfl⟩,
    RootKey.createChain_ok.mpr ⟨secret, ?_, rfl⟩⟩
  · rw [ha]
    exact hsecret'
  · rw [hb]
    exact hsecret

/-- The rungs of one conversation, the first one first. -/
structure Ladder (rungs : List Rung) : Prop where
  genuine : ∀ x ∈ rungs, x.pair.Genuine
  start : ∀ x ∈ rungs, x.chain.index = 0
  next : ∀ i x y, rungs[i]? = some x → rungs[i + 1]? = some y → x.Next y

/-- A fresh pair makes the rung above the last one. -/
theorem Ladder.append [Suite.Lawful] {rungs : List Rung} (h : Ladder rungs) {x y : Rung}
    (hx : rungs[rungs.length - 1]? = some x) (hy : y.pair.Genuine)
    (hnext : x.root.createChain x.key y.pair.privateKey = .ok (y.root, y.chain)) :
    Ladder (rungs ++ [y]) := by
  have hpos : 0 < rungs.length := Nat.lt_of_le_of_lt (Nat.zero_le _) (lt_of_getElem? hx)
  have hindex : y.chain.index = 0 := RootKey.createChain_index hnext
  refine ⟨fun z hz => ?_, fun z hz => ?_, fun i a b ha hb => ?_⟩
  · rcases List.mem_append.mp hz with hz | hz
    · exact h.genuine z hz
    · exact List.mem_singleton.mp hz ▸ hy
  · rcases List.mem_append.mp hz with hz | hz
    · exact h.start z hz
    · exact List.mem_singleton.mp hz ▸ hindex
  · by_cases hi : i + 1 < rungs.length
    · rw [List.getElem?_append_left (by omega)] at ha hb
      exact h.next i a b ha hb
    · have hlen := lt_of_getElem? hb
      rw [List.length_append, List.length_singleton] at hlen
      have hlast : i = rungs.length - 1 := by omega
      subst hlast
      rw [List.getElem?_append_left (by omega), hx] at ha
      rw [show rungs.length - 1 + 1 = rungs.length by omega, List.getElem?_concat_length] at hb
      obtain rfl := Option.some_inj.mp ha
      obtain rfl := Option.some_inj.mp hb
      obtain ⟨root, chain, hsend, hreceive⟩ :=
        createChain_agrees (h.genuine x (List.mem_of_getElem? hx)) hy x.root
      refine ⟨?_, hnext⟩
      rw [Rung.key] at hnext ⊢
      rw [hsend] at hnext
      rw [hreceive, hnext]

end DoubleRatchet
