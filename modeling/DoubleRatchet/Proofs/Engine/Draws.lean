import DoubleRatchet.Proofs.Engine.PreKeys

/-!
# The key pairs that are drawn

All that the operations of a device draw are key pairs, of 32 bytes each, and
the 64 bytes of a signature after the pairs of a bundle. So the pairs that an
operation draws are the next ones of the stream, as many as the bytes drawn
make up.
-/
namespace DoubleRatchet

namespace Entropy

/-- The stream once a number of key pairs are drawn. -/
def after (e : Entropy) (n : Nat) : Entropy := { e with used := e.used + 32 * n }

theorem after_add (e : Entropy) (m n : Nat) : (e.after m).after n = e.after (m + n) := by
  simp only [after, Nat.mul_add, Nat.add_assoc]

variable [Suite]

theorem keyPair_after (e : Entropy) : (Draw.keyPair e).2 = e.after 1 := rfl

/-- The next key pairs of a stream. -/
def pairs (e : Entropy) (n : Nat) : List KeyPair :=
  (List.range n).map fun i => (Draw.keyPair (e.after i)).1

theorem last_mem_pairs (e : Entropy) (n : Nat) : (Draw.keyPair (e.after n)).1 ∈ e.pairs (n + 1) :=
  List.mem_map.mpr ⟨n, List.mem_range.mpr (Nat.lt_succ_self n), rfl⟩

end Entropy

variable [Suite]

/-- How many key pairs an operation draws. -/
def Operation.pairsDrawn (c : Config) (d : Device) (op : Operation) : Nat :=
  let drawn := ((op.perform c d).entropy.used - d.entropy.used) / 32
  match op with
  | generate _ _ count _ => min drawn (count + 1)
  | _ => drawn

/-- The key pairs that an operation draws, whether it succeeds or not. -/
def Operation.generated (c : Config) (d : Device) (op : Operation) : List KeyPair :=
  d.entropy.pairs (op.pairsDrawn c d)

/-- The key pairs that are drawn in a number of operations. -/
def Device.generated (c : Config) : Device → List Operation → List KeyPair
  | _, [] => []
  | d, op :: ops => op.generated c d ++ generated c (op.perform c d) ops

/-- Whatever comes of an attempt, it draws key pairs and nothing else. -/
def Drawing {ε α : Type} (x : Attempt ε α) : Prop := ∀ e, ∃ n, (outcome x e).2 = e.after n

section Drawing

variable {ε α β : Type} {x : Attempt ε α} {f : α → Attempt ε β}

omit [Suite] in
theorem Drawing.of_keeps (h : Keeps id x) : Drawing x := fun e => ⟨0, h e⟩

omit [Suite] in
theorem Drawing.bind (hx : Drawing x) (hf : ∀ a, Drawing (f a)) : Drawing (x >>= f) := by
  intro e
  obtain ⟨n, hn⟩ := hx e
  rw [outcome_bind]
  rcases h : outcome x e with ⟨_ | a, e₁⟩ <;> rw [h] at hn
  · exact ⟨n, hn⟩
  · obtain rfl : e₁ = e.after n := hn
    obtain ⟨k, hk⟩ := hf a (e.after n)
    exact ⟨n + k, by rw [hk, Entropy.after_add]⟩

end Drawing

theorem State.drawing_receivingChain (c : Config) (s : State) (their : PublicKey) :
    Drawing (s.receivingChain c their) := by
  unfold receivingChain
  cases s.receiverChain? their with
  | some chain => exact .of_keeps fun _ => rfl
  | none =>
    refine .bind (.of_keeps fun _ => rfl) fun _ => .bind (fun e => ⟨1, rfl⟩) fun _ => ?_
    exact .bind (.of_keeps fun _ => rfl) fun _ => .of_keeps fun _ => rfl

theorem State.drawing_decrypt (c : Config) (now : UInt64) (s : State) (m : RatchetMessage) :
    Drawing (s.decrypt c now m) := by
  unfold decrypt
  by_cases version : m.version = s.version
  · rw [if_neg (not_not_intro version)]
    refine .bind (drawing_receivingChain _ _ _) fun (chain, ready) =>
      .bind (.of_keeps fun _ => rfl) fun (keys, s) => ?_
    by_cases hverify : m.verify s.remoteIdentity s.localIdentity keys.macKey.toList = true
    · simp only [hverify, Bool.not_true, Bool.false_eq_true, if_false]
      cases Cbc.decrypt (Suite.cipher keys.cipherKey) keys.iv m.body <;>
        exact .of_keeps fun _ => rfl
    · simp only [hverify, Bool.not_false, if_true]
      exact .of_keeps fun _ => rfl
  · rw [if_pos version]
    exact .of_keeps fun _ => rfl

/-- The states that are tried in vain draw key pairs, each for itself. -/
theorem Record.Passed.draws {c : Config} {now : UInt64} {m : RatchetMessage} {states : List State}
    {e e' : Entropy} (h : Passed c now m states e e') : ∃ n, e' = e.after n := by
  induction h with
  | nil => exact ⟨0, rfl⟩
  | @cons s rest fault e₁ e₂ e₃ fails next pass ih =>
    obtain ⟨k, hk⟩ := State.drawing_decrypt c now s m e₁
    rw [fails] at hk
    obtain rfl : e₂ = e₁.after k := hk
    obtain ⟨n, rfl⟩ := ih
    exact ⟨k + n, e₁.after_add k n⟩

theorem Record.drawing_tryStates (c : Config) (now : UInt64) (m : RatchetMessage) (position : Nat)
    (states : List State) (failed : List SessionError) :
    Drawing (tryStates c now m position states failed) := by
  induction states generalizing position failed with
  | nil => exact .of_keeps fun _ => rfl
  | cons s states ih =>
    intro e
    obtain ⟨n, hn⟩ := State.drawing_decrypt c now s m e
    rw [tryStates_cons]
    rcases hs : outcome (s.decrypt c now m) e with ⟨fault | ⟨plain, after⟩, e₁⟩ <;> rw [hs] at hn
    · obtain rfl : e₁ = e.after n := hn
      by_cases hnext : mayTryNext fault = true
      · obtain ⟨k, hk⟩ := ih (position + 1) (failed ++ [fault]) (e.after n)
        exact ⟨n + k, by simp only [hnext, if_true, hk, Entropy.after_add]⟩
      · exact ⟨n, by simp only [hnext]; rfl⟩
    · exact ⟨n, hn⟩

theorem Record.drawing_decrypt (c : Config) (now : UInt64) (peer : Address) (r : Record)
    (m : RatchetMessage) :
    Drawing (r.decrypt c now peer m) := by
  unfold Record.decrypt
  cases r.isFresh with
  | true => exact .of_keeps fun _ => rfl
  | false =>
    simp only [Bool.false_eq_true, if_false]
    refine .bind (drawing_tryStates c now m 0 r.states []) fun (position, plain, after) =>
      .of_keeps fun _ => ?_
    cases r.accept c position after <;> rfl

/-- Decrypting a message draws key pairs and nothing else, whatever comes of it. -/
theorem Engine.draws_decrypt (c : Config) (now : UInt64) (peer : Address) (m : Message)
    (d : Device) :
    ∃ n, (outcome (decrypt c now peer m) d).2.entropy = d.entropy.after n := by
  have hattempt : ∀ (r : Record) (p : RatchetMessage), ∃ n,
      (outcome (Action.attempt (r.decrypt c now peer p)) d).2.entropy = d.entropy.after n :=
    fun r p => r.drawing_decrypt c now peer p d.entropy
  cases m with
  | ratchet p =>
    obtain ⟨n, hn⟩ := hattempt (d.stores.loadSession peer) p
    refine ⟨n, Eq.trans ?_ hn⟩
    unfold decrypt decryptRatchet
    rw [outcome_bind, Action.outcome_stores]
    refine Keeps.after (fun (plain, r) => (?_ : Keeps Device.entropy _)) _ d
    cases hr : r.current with
    | none =>
      simp only [hr]
      exact fun _ => rfl
    | some s =>
      simp only [hr]
      exact (keeps_checkTrust _ _ _).bind fun _ _ => rfl
  | preKey p =>
    unfold decrypt decryptPreKey
    rw [outcome_bind, Action.outcome_stores]
    simp only
    rw [outcome_bind, Action.outcome_ofExcept]
    cases prepare c d.stores peer (d.stores.loadSession peer) p with
    | error fault => exact ⟨0, rfl⟩
    | ok opened =>
      obtain ⟨n, hn⟩ := hattempt opened.1 p.message
      refine ⟨n, Eq.trans ?_ hn⟩
      refine Keeps.after (fun (plain, r) => (?_ : Keeps Device.entropy _)) _ d
      refine Keeps.bind (fun _ => rfl) fun _ _ => ?_
      cases opened.2 <;> rfl

theorem Operation.generated_eq {c : Config} {d : Device} {op : Operation} {n : Nat}
    (h : op.pairsDrawn c d = n) :
    op.generated c d = d.entropy.pairs n := by
  rw [generated, h]

/-- Starting a session takes two pairs: the base key's, and the one that the new state sends on. -/
theorem generated_process {c : Config} {d : Device} {peer : Address} {b : Bundle}
    {base sending : KeyPair} {e₁ e₂ : Entropy} (hbase : Draw.keyPair d.entropy = (base, e₁))
    (hsending : Draw.keyPair e₁ = (sending, e₂))
    (h : ((Operation.process peer b).perform c d).entropy = e₂) :
    (Operation.process peer b).generated c d = [base, sending] := by
  obtain rfl : e₁ = d.entropy.after 1 := (congrArg Prod.snd hbase).symm
  have hused :
      ((Operation.process peer b).perform c d).entropy.used = d.entropy.used + 32 * 1 + 32 := by
    rw [h, show e₂ = (Draw.keyPair (d.entropy.after 1)).2 from (congrArg Prod.snd hsending).symm]
    rfl
  have htwo : (Operation.process peer b).pairsDrawn c d = 2 := by
    simp only [Operation.pairsDrawn, hused]
    omega
  rw [Operation.generated_eq htwo, show base = (Draw.keyPair d.entropy).1
    from (congrArg Prod.fst hbase).symm, show sending = (Draw.keyPair (d.entropy.after 1)).1
    from (congrArg Prod.fst hsending).symm]
  rfl

/-- In reading a message the last pair is the one for a ratchet step. -/
theorem generated_decrypt {c : Config} {d : Device} {now : UInt64} {peer : Address} {m : Message}
    {n : Nat}
    (h : ((Operation.decrypt now peer m).perform c d).entropy =
      (Draw.keyPair (d.entropy.after n)).2) :
    (Operation.decrypt now peer m).generated c d = d.entropy.pairs (n + 1) := by
  have hused :
      ((Operation.decrypt now peer m).perform c d).entropy.used = d.entropy.used + 32 * n + 32 := by
    rw [h]
    rfl
  refine Operation.generated_eq ?_
  simp only [Operation.pairsDrawn, hused]
  omega

/-- One-time pre-keys take one pair each. -/
theorem PreKeys.entropy_batch (id count : Nat) (e : Entropy) :
    (batch id count e).2 = e.after (batch id count e).1.length := by
  induction count generalizing id e with
  | zero => rfl
  | succ count ih =>
    by_cases hid : UInt32.size ≤ id
    · rw [batch_of_size_le hid]
      rfl
    · rw [batch_succ (Nat.not_le.mp hid), ih, Entropy.keyPair_after, Entropy.after_add,
        List.length_cons, Nat.add_comm]

theorem PreKeys.entropy_of_generate {id count : Nat} {d d' : Device} {keys : List PublishedPreKey}
    (h : outcome (generate id count) d = (.ok keys, d')) : d'.entropy = d.entropy.after count := by
  obtain ⟨hroom, -, rfl⟩ := generate_ok.mp h
  have hall : min count (UInt32.size - id) = count := by omega
  rw [entropy_batch, length_batch, hall]

/-- In making a bundle the pair after these is that of the signed pre-key, and
what is drawn behind it goes into its signature. -/
theorem PreKeys.signed_of_generateBundle {deviceId start : UInt32} {count : Nat} {now : UInt64}
    {d d' : Device} {p : PublishedBundle}
    (h : outcome (generateBundle deviceId start count now) d = (.ok p, d')) :
    d'.entropy.used = d.entropy.used + 32 * count + 32 + 64 ∧
      ∀ id r, d'.stores.signedPreKeys.get? id = some r →
        r.keyPair = (Draw.keyPair (d.entropy.after count)).1 ∨
        d.stores.signedPreKeys.get? id = some r := by
  obtain ⟨keys, d₁, id, hkeys, -, rfl, -⟩ := generateBundle_ok.mp h
  have hentropy := entropy_of_generate hkeys
  have hkeep : d₁.stores.signedPreKeys = d.stores.signedPreKeys := by rw [stores_generate hkeys]
  have hused : d₁.entropy.used = d.entropy.used + 32 * count := by rw [hentropy]; rfl
  refine ⟨by rw [← hused]; rfl, fun i r hr => ?_⟩
  change (d₁.stores.signedPreKeys.insert id _).get? i = some r at hr
  rw [Table.get?_insert] at hr
  split at hr
  · rw [← Option.some_inj.mp hr, ← hentropy]
    exact .inl rfl
  · exact .inr (hkeep ▸ hr)

theorem generated_generate {c : Config} {d d' : Device} {deviceId start : UInt32} {count : Nat}
    {now : UInt64} {p : PublishedBundle}
    (h : outcome (PreKeys.generateBundle deviceId start count now) d = (.ok p, d')) :
    (Operation.generate deviceId start count now).generated c d = d.entropy.pairs (count + 1) := by
  have hused := (PreKeys.signed_of_generateBundle h).1
  refine Operation.generated_eq ?_
  simp only [Operation.pairsDrawn, Operation.perform, h, hused]
  omega

end DoubleRatchet
