import DoubleRatchet.Proofs.Curve.Signature
import DoubleRatchet.Proofs.Session.Retention
import DoubleRatchet.Proofs.Simulation.Meeting

/-!
# Clean conversations

In each exchange one party writes a batch and the other one reads it, and the
conversation is one rung longer. As long as all key pairs that are drawn have
public keys of their own, nothing fails in any number of rounds. Main statement:
`Simulation.run_clean`.
-/
namespace DoubleRatchet

variable [Suite]

theorem Entropy.first_mem_pairs (e : Entropy) (n : Nat) : (Draw.keyPair e).1 ∈ e.pairs (n + 1) :=
  List.mem_map.mpr ⟨0, List.mem_range.mpr (Nat.succ_pos n), rfl⟩

theorem Entropy.pairs_one (e : Entropy) : e.pairs 1 = [(Draw.keyPair e).1] := rfl

namespace Simulation

/-- The key pairs that are drawn in one batch, all of them as it arrives. -/
def exchanged [Shuffler] (o : Options) (c : Config) (now : UInt64) (round : Nat)
    (sender receiver : Party) (report : Report) :
    Entropy → List KeyPair :=
  following (dispatch o round sender receiver.address) fun (batch, sender) e =>
    e.between (outcome (deliver o c now sender.address batch receiver report) e).2

/-- The key pairs that are drawn in a number of rounds. -/
def conversed [Shuffler] (o : Options) (c : Config) (now : UInt64) :
    (count round : Nat) → Party → Party → Report → Entropy →
    List KeyPair
  | 0, _, _, _, _, _ => []
  | count + 1, round, alice, bob, report, e =>
    exchanged o c now round alice bob report e ++
      following (exchange o c now round alice bob report) (fun (alice, bob, report) e =>
        exchanged o c now round bob alice report e ++
          following (exchange o c now round bob alice report) (fun (bob, alice, report) e =>
            conversed o c now count (round + 1) alice bob report e) e) e

/-- All key pairs that are drawn in a conversation. -/
def generated [Shuffler] (o : Options) (c : Config) (now : UInt64) (e : Entropy) : List KeyPair :=
  opened c now e ++
    following (meet c now)
      (fun (alice, bob) => conversed o c (now / 1000) o.rounds 0 alice bob {}) e

omit [Suite] in
@[simp] theorem Report.clean_zero (r : Report) (o : Options) : r.clean o 0 = r := by
  simp [clean]

omit [Suite] in
theorem Report.clean_none {o : Options} (h : o.messagesPerRound = 0) (r : Report) (batches : Nat) :
    r.clean o batches = r := by
  simp [clean, h]

omit [Suite] in
theorem Report.clean_clean (r : Report) (o : Options) (m n : Nat) :
    (r.clean o m).clean o n = r.clean o (m + n) := by
  unfold clean
  split <;> simp [Nat.add_mul, Nat.add_assoc]

/-- The key pairs that are still to be drawn have new public keys. -/
def Fresh (rungs : List Rung) (pairs : List KeyPair) : Prop :=
  (rungs.map Rung.key ++ pairs.map KeyPair.publicKey).Nodup

section Fresh

variable {rungs : List Rung} {pairs more : List KeyPair} {z : Rung}

omit [Suite] in
theorem Fresh.left (h : Fresh rungs (pairs ++ more)) : Fresh rungs pairs := by
  rw [Fresh, List.map_append, ← List.append_assoc] at h
  exact h.of_append_left

omit [Suite] in
theorem Fresh.climb (h : Fresh rungs ([z.pair] ++ more)) : Fresh (rungs ++ [z]) more := by
  simpa [Fresh, Rung.key] using h

omit [Suite] in
theorem Fresh.new (h : Fresh rungs pairs) {pair : KeyPair} (hpair : pair ∈ pairs) :
    pair.publicKey ∉ rungs.map Rung.key :=
  fun hold => List.disjoint_of_nodup_append h hold (List.mem_map_of_mem hpair)

end Fresh

section Rounds

variable [Shuffler] {t : Terms} {side : Side} {rungs : List Rung} {k round : Nat} {o : Options}
  {c : Config} {now : UInt64} {p q : Party} {s r : State}

/-- A batch that goes out and arrives makes the conversation one rung longer. -/
theorem Facing.exchange_ok [Suite.Lawful] (ho : o.Fit c) (hround : round < UInt32.size)
    (hn : 0 < o.messagesPerRound) (h : Facing t c side rungs k p q s r) (report : Report)
    (e : Entropy) (hfresh : Fresh rungs (exchanged o c now round p q report e)) :
    ∃ z p' q' s' r' e', exchanged o c now round p q report e = [z.pair] ∧
      outcome (exchange o c now round p q report) e = (.ok (p', q', report.clean o 1), e') ∧
      Facing t c side.other (rungs ++ [z]) (k + 1) q' p' r' s' := by
  obtain ⟨x, hx⟩ : ∃ x, rungs[k + 1]? = some x :=
    ⟨_, List.getElem?_eq_getElem (by rw [h.turn.top]; omega)⟩
  obtain ⟨letters, p', s', e₁, hdispatch, hbatch, htimely, hpre, hname, hp', hs', hskipped⟩ :=
    dispatch_ok ho hround h hx e
  have haddress : p'.address = p.address := by rw [Party.address, hname, Party.address]
  have hpairs : exchanged o c now round p q report e =
      e₁.between
        (outcome (deliver o c now p.address (letters.map Letter.written) q report) e₁).2 := by
    rw [exchanged, following_ok hdispatch, ← haddress]
  -- what is drawn first is among the pairs that are new, whatever comes of the batch
  obtain ⟨m, hdraws⟩ := h.deliver_draws hx hbatch hn htimely hpre o now e₁ report
  have hmem : (Draw.keyPair e₁).1 ∈ exchanged o c now round p q report e := by
    rw [hpairs, hdraws, Entropy.between_after]
    exact e₁.first_mem_pairs m
  obtain ⟨z, q', r', hpair, hdeliver, hname', hq', hlistening⟩ :=
    h.deliver_ok ho hx hbatch hn htimely hpre (hfresh.new hmem) now report
  have haddress' : q'.address = q.address := by rw [Party.address, hname', Party.address]
  refine ⟨z, p', q', s', r', e₁.after 1, ?_, ?_, ?_⟩
  · rw [hpairs, hdeliver, Entropy.between_after, Entropy.pairs_one, hpair]
  · rw [← haddress] at hdeliver
    rw [exchange, outcome_bind_of_ok hdispatch, outcome_bind_of_ok hdeliver]
    rfl
  · refine ⟨hlistening.turn (hs'.append [z]) ?_ fun i hi => ?_, ?_, ?_, ?_⟩
    · rw [hskipped]
      exact h.turn.clear.1
    · exact List.mem_reverse.mpr (hbatch.mem_numbers hi)
    · rwa [haddress]
    · rw [haddress', side.other_other]
      exact hp'.awaits hs'.version c _
    · rw [hname, hname']
      exact h.short.symm

/-- All rounds go well. -/
theorem Facing.converse_ok [Suite.Lawful] (ho : o.Fit c) (hn : 0 < o.messagesPerRound) {count : Nat}
    (hround : round + count ≤ UInt32.size) (h : Facing t c .initiator rungs k p q s r)
    (report : Report) (e : Entropy)
    (hfresh : Fresh rungs (conversed o c now count round p q report e)) :
    (outcome (converse o c now count round p q report) e).1 = .ok (report.clean o (2 * count)) := by
  induction count generalizing rungs k round p q s r report e with
  | zero => rw [Nat.mul_zero, Report.clean_zero]; rfl
  | succ count ih =>
    have hlt : round < UInt32.size := by omega
    have hround : round + 1 + count ≤ UInt32.size := by omega
    rw [conversed] at hfresh
    obtain ⟨z₁, p₁, q₁, s₁, r₁, e₁, hpair₁, hexchange₁, h₁⟩ :=
      h.exchange_ok ho hlt hn report e hfresh.left
    rw [following_ok hexchange₁, hpair₁] at hfresh
    have hfresh₁ := hfresh.climb
    obtain ⟨z₂, q₂, p₂, r₂, s₂, e₂, hpair₂, hexchange₂, h₂⟩ :=
      h₁.exchange_ok ho hlt hn (report.clean o 1) e₁ hfresh₁.left
    simp only at hfresh₁
    rw [following_ok hexchange₂, hpair₂] at hfresh₁
    have hrest := ih hround h₂ _ e₂ hfresh₁.climb
    rw [converse, outcome_bind_of_ok hexchange₁, outcome_bind_of_ok hexchange₂,
      hrest, Report.clean_clean, Report.clean_clean]
    congr 2
    omega

/-- An empty batch changes nothing, though something may be drawn for its order. -/
theorem exchange_none (hn : o.messagesPerRound = 0) (report : Report) (e : Entropy) :
    ∃ e', outcome (exchange o c now round p q report) e = (.ok (p, q, report), e') := by
  have hdispatch : ∃ e', outcome (dispatch o round p q.address) e = (.ok ([], p), e') := by
    unfold dispatch
    rw [hn]
    cases o.shuffle with
    | false => exact ⟨e, rfl⟩
    | true =>
      have horder := (Shuffler.perm ([] : List (String × Bytes)) e).eq_nil
      refine ⟨(Shuffler.shuffle ([] : List (String × Bytes)) e).2, ?_⟩
      rw [writeBatch, outcome_bind_of_ok (outcome_pure _ _)]
      simp only [if_true]
      rw [outcome_bind, outcome_liftM, horder]
      rfl
  obtain ⟨e', hdispatch⟩ := hdispatch
  have hdeliver : outcome (deliver o c now p.address [] q report) e' = (.ok (q, report), e') := by
    unfold deliver
    cases o.replay <;> rfl
  refine ⟨e', ?_⟩
  rw [exchange, outcome_bind_of_ok hdispatch, outcome_bind_of_ok hdeliver]
  rfl

theorem converse_none (hn : o.messagesPerRound = 0) (count : Nat) (report : Report) (e : Entropy) :
    (outcome (converse o c now count round p q report) e).1 = .ok report := by
  induction count generalizing round e with
  | zero => rfl
  | succ count ih =>
    obtain ⟨e₁, hexchange₁⟩ : ∃ e₁, outcome (exchange o c now round p q report) e =
        (.ok (p, q, report), e₁) := exchange_none hn report e
    obtain ⟨e₂, hexchange₂⟩ : ∃ e₂, outcome (exchange o c now round q p report) e₁ =
        (.ok (q, p, report), e₂) := exchange_none hn report e₁
    rw [converse, outcome_bind_of_ok hexchange₁, outcome_bind_of_ok hexchange₂]
    exact ih e₂

/-- Whatever the size of the batches, all rounds go well. -/
theorem Facing.converse_clean [Suite.Lawful] (hvalid : c.validate = .ok ())
    (hage : c.skippedKeyMaxAge = none) (hcount : 2 * o.rounds * o.messagesPerRound < UInt32.size)
    (hnear : o.shuffle = true → o.messagesPerRound ≤ c.maxForwardJump.toNat + 1)
    (h : Facing t c .initiator rungs k p q s r) (e : Entropy)
    (hfresh : Fresh rungs (conversed o c now o.rounds 0 p q {} e)) :
    (outcome (converse o c now o.rounds 0 p q {}) e).1 =
      .ok (Report.clean {} o (2 * o.rounds)) := by
  rcases Nat.eq_zero_or_pos o.messagesPerRound with hempty | hn
  · rw [converse_none hempty, Report.clean_none hempty]
  · have hrounds : o.rounds ≤ 2 * o.rounds * o.messagesPerRound :=
      Nat.le_trans (Nat.le_mul_of_pos_left _ (by decide)) (Nat.le_mul_of_pos_right _ hn)
    rcases Nat.eq_zero_or_pos o.rounds with hzero | hpos
    · rw [hzero, Nat.mul_zero, Report.clean_zero]
      rfl
    · have hmessages : o.messagesPerRound ≤ 2 * o.rounds * o.messagesPerRound :=
        Nat.le_mul_of_pos_left _ (by omega)
      exact h.converse_ok ⟨hage, (Config.validate_ok.mp hvalid).2, by omega, hnear⟩ hn
        (by omega) {} e hfresh

end Rounds

/-- With good bounds and new keys a conversation is clean: all messages arrive and
all replays are rejected. If batches are shuffled this is so for every way to
shuffle them, as long as no batch is longer than a jump may be. -/
theorem run_clean [Suite.Lawful] [Shuffler] {Point : Type} {group : SigningGroup Point}
    {Multiple : ZMod Xeddsa.order → Point → Prop} (hsigning : Suite.Signing group Multiple)
    {o : Options} {c : Config} (hvalid : c.validate = .ok ()) (hage : c.skippedKeyMaxAge = none)
    (hcount : 2 * o.rounds * o.messagesPerRound < UInt32.size)
    (hnear : o.shuffle = true → o.messagesPerRound ≤ c.maxForwardJump.toNat + 1)
    (now : UInt64) {e : Entropy}
    (hfresh : ((generated o c now e).map KeyPair.publicKey).Nodup) :
    (outcome (run o c now) e).1 = .ok {
      sent := 2 * o.rounds * o.messagesPerRound
      decrypted := 2 * o.rounds * o.messagesPerRound
      replaysRejected := if o.replay = true ∧ 0 < o.messagesPerRound then 2 * o.rounds else 0
      failures := [] } := by
  rw [generated, List.map_append] at hfresh
  obtain ⟨t, rungs, alice, bob, s, r, e', hmeet, hsublist, hfacing⟩ :=
    meet_ok hsigning.signs c now e hfresh.of_append_left
  rw [following_ok hmeet] at hfresh
  have hnew : Fresh rungs (conversed o c (now / 1000) o.rounds 0 alice bob {} e') :=
    (hsublist.append_right _).nodup hfresh
  have hconverse := hfacing.converse_clean hvalid hage hcount hnear e' hnew
  have hconfig :
      outcome (ExceptT.mk (pure (c.validate.mapError .config)) : Run Unit) e = (.ok (), e) := by
    rw [outcome_mk, hvalid]
    rfl
  rw [run, outcome_bind_of_ok hconfig, outcome_bind_of_ok hmeet, hconverse]
  simp [Report.clean]

end Simulation

namespace Small

/-- The last item first. -/
@[reducible] def backwards : Shuffler where
  shuffle items := pure items.reverse
  perm items _ := items.reverse_perm

end Small

namespace Simulation

omit [Suite] in
/-- A round of two batches that arrive backwards, with a replay each, in bounds
that just allow it. -/
theorem run_clean_backwards :
    (@outcome _ _ _ (@run Small.signingSuite Small.backwards ⟨1, 2, true, true⟩
      { maxSkippedKeys := 1, maxForwardJump := 1, maxReceiverChains := 1 } 0) (Small.entropy 5)).1 =
      .ok ⟨4, 4, 2, []⟩ := by
  let := Small.signingSuite
  let := Small.lawful_signingSuite
  let := Small.backwards
  exact run_clean Small.signing (o := ⟨1, 2, true, true⟩)
    (c := { maxSkippedKeys := 1, maxForwardJump := 1, maxReceiverChains := 1 }) (by decide) rfl
    (by decide) (by decide) 0 (e := Small.entropy 5) (by decide +kernel)

end Simulation

end DoubleRatchet
