import DoubleRatchet.Proofs.Engine.Retention
import DoubleRatchet.Proofs.Session.Counters
import DoubleRatchet.Proofs.Session.Persistence

/-!
# Counters of the engine

No arithmetic on indexes or counters leaves its range, on whatever state a
message is written or read. A device whose sender chain is exhausted refuses to
write and stays as it is, until a ratchet step starts a new chain. Main
statement: `State.counters_in_range`.
-/
namespace DoubleRatchet

variable [Suite]

theorem Engine.encrypt_exhausted {d : Device} {peer : Address} {s : State} (hs : s.Exhausted)
    (current : (d.stores.loadSession peer).current = some s) (plain : Bytes) :
    outcome (Engine.encrypt peer plain) d =
      (.error (.session (.invalidState .senderChainExhausted)), d) := by
  unfold Engine.encrypt
  simp [outcome_bind, current, hs.encrypt]

/-- On every state, also one with indexes that no run leads to, writing and reading in
checked arithmetic never fail and come to what they come to without. What is written
is one less than exhausted at the most, and what is read claims no more. A state with an
exhausted sender chain writes nothing, nor does a device that it is current on, and
neither is changed by the attempt; it stays exhausted through any run without a ratchet
step, and a ratchet step starts a chain at zero. -/
theorem State.counters_in_range (c : Config) (s : State) :
    (∀ plain, s.encryptChecked plain = .ok (s.encrypt plain)) ∧
    (∀ now m e, RatchetMessage.Valid m →
      s.decryptChecked c now m e = .ok (outcome (s.decrypt c now m) e)) ∧
    (∀ plain m t, s.encrypt plain = .ok (m, t) → m.inner.counter = s.sender.chain.index ∧
      m.inner.counter.toNat < UInt32.size - 1 ∧
      t.sender.chain.index.toNat = s.sender.chain.index.toNat + 1) ∧
    (∀ now m e plain t e', outcome (s.decrypt c now m) e = (.ok (plain, t), e') →
      m.counter.toNat < UInt32.size - 1 ∧
      ((s.receipt now m).added = true → t.sender.chain.index = 0)) ∧
    (s.Exhausted → ∀ history t, s.Runs c history t → (∀ v ∈ history, v.added = false) →
      ∀ plain, t.encrypt plain = .error (.session (.invalidState .senderChainExhausted)) ∧
        ∀ (d : Device) (peer : Address), (d.stores.loadSession peer).current = some t →
          outcome (Engine.encrypt peer plain) d =
            (.error (.session (.invalidState .senderChainExhausted)), d)) := by
  refine ⟨s.encryptChecked_eq, fun now m e valid => s.decryptChecked_eq c now valid e, ?_, ?_, ?_⟩
  · intro plain m t written
    obtain ⟨hend, rfl, rfl⟩ := encrypt_ok.mp written
    have hsize := toNat_lt_size s.sender.chain.index
    rw [inner_wrapped]
    exact ⟨rfl, show s.sender.chain.index.toNat < _ by omega, toNat_succ hend⟩
  · intro now m e plain t e' read
    have hreads := decrypt_ok.mp read
    have hsender := hreads.sender
    refine ⟨hreads.counter_lt, fun hadded => ?_⟩
    rwa [if_pos hadded] at hsender
  · intro hexhausted history t run unstepped plain
    have ht := hexhausted.runs run unstepped
    exact ⟨ht.encrypt plain, fun d peer current => Engine.encrypt_exhausted ht current plain⟩

omit [Suite] in
/-- The crowded state cannot write any more; a state that jumps over two messages
reads the third one. -/
theorem State.counters_in_range_crowded : Small.crowded.Exhausted ∧
    @State.encryptChecked Small.suite Small.crowded [1] =
      .ok (.error (.session (.invalidState .senderChainExhausted))) ∧
    ∃ e, @State.decryptChecked Small.suite Small.brief 1000 Small.listener
      (Small.spoken 2) (Small.entropy 0) =
      .ok (.ok ([2], Small.listen 1000 2 Small.listener), e) := by
  let := Small.suite
  have hexhausted : Small.crowded.Exhausted := rfl
  have hvalid : (Small.spoken 2).Valid := .made _ _ _ _ _ _ _ _
  obtain ⟨e, hthird⟩ := Small.listen_third
  obtain ⟨hwrites, -, -, -, hstays⟩ := State.counters_in_range {} Small.crowded
  obtain ⟨-, hreads, -⟩ := State.counters_in_range Small.brief Small.listener
  have hrefused := (hstays hexhausted [] _ .start (List.forall_mem_nil _) [1]).1
  exact ⟨hexhausted, (hwrites [1]).trans (congrArg _ hrefused), e,
    (hreads 1000 _ _ hvalid).trans (congrArg _ hthird)⟩

end DoubleRatchet
