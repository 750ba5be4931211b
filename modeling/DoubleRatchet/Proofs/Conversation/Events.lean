import DoubleRatchet.Proofs.Conversation.Steps

/-!
# Events of a conversation

A message of the other party is on a rung that is held or on the one above, and
is opened in the record of the state in mind. So every event keeps the
invariant, and a run of them does, as long as no tag was right by accident.
-/
namespace DoubleRatchet

namespace Conversation

variable [Suite] {t : Terms} {rungs : List Rung} {level : Side → Nat} {mind : Side → State}
  {w : Conversation}

/-- With fresh ratchet keys the rungs of each party are distinct. -/
theorem Sound.distinct (h : w.Sound t rungs level mind)
    (hfresh : ∀ side, (w.seat side).ratchetKeys.Nodup) :
    Distinct rungs := by
  intro i j x y hx hy hij hkey
  have hside : ∃ side : Side, side.turn = i % 2 := by
    rcases Nat.mod_two_eq_zero_or_one i with hi | hi
    · exact ⟨.responder, hi.symm⟩
    · exact ⟨.initiator, hi.symm⟩
  obtain ⟨side, hside⟩ := hside
  have hturn := h.turn side
  have hi := (h.seats side).climbed.keys i x hx (by omega)
  have hj := (h.seats side).climbed.keys j y hy (by omega)
  rw [← hkey] at hj
  have hhalf := (List.getElem?_inj (lt_of_getElem? hi) (hfresh side)).mp (hi.trans hj.symm)
  omega

theorem Sound.facing (h : w.Sound t rungs level mind) (side : Side) :
    (w.seat side.other).Sound t rungs (level side.other) side.other (mind side.other)
      (w.seat side).sent := by
  have hother := h.seats side.other
  rw [side.other_other] at hother
  exact hother

section Arrival

variable {side : Side} {position : Nat} {m : Message} {plain : Bytes}

theorem Sound.wrapped (h : w.Sound t rungs level mind)
    (hm : (w.seat side.other).sent[position]? = some (m, plain)) :
    ∀ p, m = .preKey p → side.other = .initiator ∧ p.Under t := by
  rintro p rfl
  exact (h.seats side.other).sent.wrapped p plain (List.mem_of_getElem? hm)

/-- A message of the other party was written on a rung, between the identities of the
state in mind. -/
theorem Sound.written (h : w.Sound t rungs level mind)
    (hm : (w.seat side.other).sent[position]? = some (m, plain)) :
    ∃ q x i, rungs[q]? = some x ∧ q % 2 ≠ level side % 2 ∧
      m.inner.On x i (mind side).remoteIdentity (mind side).localIdentity plain := by
  obtain ⟨q, x, i, hx, -, hq, hon, -⟩ :=
    (h.seats side.other).sent.written m plain (List.mem_of_getElem? hm)
  have hturn := h.turn side
  have hturn' := h.turn side.other
  have hother := side.turn_other
  rw [side.other_other, ← (h.seats side).abides.localIdentity,
    ← (h.seats side).abides.remoteIdentity] at hon
  exact ⟨q, x, i, hx, by omega, hon⟩

/-- The rung of a message whose chain was never held is the one above. -/
theorem Sound.above (h : w.Sound t rungs level mind) {q : Nat} {x : Rung} (hx : rungs[q]? = some x)
    (hq : q % 2 ≠ level side % 2) (hnever : x.key ∉ (w.seat side).held) :
    q = level side + 1 ∧ rungs.length = level side + 2 := by
  have hlt := lt_of_getElem? hx
  have hhigh := h.high side
  have hnot : ¬q < level side := by
    intro hbelow
    exact hnever (((h.seats side).climbed.held _).mpr ⟨q, x, ⟨hx, hbelow, hq⟩, rfl⟩)
  omega

/-- The chain of a message is held, or is to be made by the next ratchet step. -/
theorem Sound.place (h : w.Sound t rungs level mind) {q : Nat} {x : Rung} (hx : rungs[q]? = some x)
    (hq : q % 2 ≠ level side % 2) {r : PublicKey} (hr : r = x.key)
    (hfair : r ∉ (w.seat side).held ∨ ((w.seat side).chain? r).isSome = true) :
    (∃ chain, (mind side).receiverChain? r = some chain) ∨
      (mind side).receiverChain? r = none ∧ r ∉ (w.seat side).held ∧
        rungs[level side + 1]? = some x ∧ rungs.length = level side + 2 := by
  rw [(h.seats side).minds.chain?_eq] at hfair
  cases hold : (mind side).receiverChain? r with
  | some chain => exact .inl ⟨chain, rfl⟩
  | none =>
    rw [hold] at hfair
    rcases hfair with hnever | hsome
    · obtain ⟨rfl, htop⟩ := h.above hx hq (hr ▸ hnever)
      exact .inr ⟨rfl, hnever, hx, htop⟩
    · cases hsome

/-- With the means to tell its keys a message is opened in the record of the state in mind. -/
theorem Sound.opened (h : w.Sound t rungs level mind)
    (hm : (w.seat side.other).sent[position]? = some (m, plain))
    (hstocked : (w.seat side).record.current.isSome = true ∨
      (w.seat side).device.stores.KeepsFor w.offered m) :
    ∃ used, Engine.opened (w.seat side).bounds (w.seat side).device.stores (w.seat side).peer m =
      .ok (⟨some (mind side), []⟩, used) := by
  have hseat := h.seats side
  have htrusted := hseat.minds.trusted
  rcases hseat.minds.record with hrecord | ⟨hrecord, rfl, hanswer, -⟩
  · rw [Seat.record] at hrecord
    refine ⟨none, ?_⟩
    cases m with
    | ratchet m =>
      rw [← hrecord]
      rfl
    | preKey p =>
      obtain ⟨hside, hunder⟩ := h.wrapped hm p rfl
      rw [hside, ← hunder.identityKey] at htrusted
      refine Engine.prepare_ok.mpr ⟨htrusted, .inl ⟨?_, hrecord.symm, rfl⟩⟩
      have hversion := hseat.stands.version.trans hunder.version.symm
      have hbase := hseat.abides.baseKey.trans hunder.baseKey.symm
      simp [Record.hasState, Record.states, hrecord, hversion, hbase]
  · obtain ⟨p, rfl⟩ := (h.unanswered hrecord).wrapped m plain (List.mem_of_getElem? hm)
    obtain ⟨hside, hunder⟩ := h.wrapped hm p rfl
    have hkeeps : (w.seat .responder).device.stores.KeepsFor w.offered (.preKey p) := by
      rcases hstocked with hsome | hkeeps
      · rw [hrecord] at hsome
        cases hsome
      · exact hkeeps
    have hrespond := h.answers p _ hunder hseat.minds.own hkeeps
    rw [hside, ← hunder.identityKey] at htrusted
    rw [Seat.record] at hrecord
    refine ⟨p.preKeyId, Engine.prepare_ok.mpr ⟨htrusted, .inr ⟨?_, t.answer, hrespond, ?_, rfl⟩⟩⟩
    · rw [hrecord]
      rfl
    · rw [hrecord, hanswer]
      rfl

end Arrival

/-- One seat changes, and the rungs may grow. -/
theorem Sound.set (h : w.Sound t rungs level mind) {side : Side} {s : Seat} {n : Nat}
    {after : State} {rungs' : List Rung} (ladder : Ladder rungs') (turn : n % 2 = side.turn)
    (low : n < rungs'.length) (high : rungs'.length ≤ n + 2)
    (lowOther : level side.other < rungs'.length) (highOther : rungs'.length ≤ level side.other + 2)
    (self : s.Sound t rungs' n side after (w.seat side.other).sent)
    (other : (w.seat side.other).Sound t rungs' (level side.other) side.other
      (mind side.other) s.sent)
    (unanswered : ((w.set side s).seat .responder).record = {} →
      (w.set side s).Unanswered t (Function.update mind side after)) :
    (w.set side s).Sound t rungs' (Function.update level side n)
      (Function.update mind side after) := by
  have hne := side.other_ne
  refine ⟨ladder, fun that => ?_, fun that => ?_, fun that => ?_, fun that => ?_,
    unanswered, h.answers⟩
  · rcases side.eq_or_other that with rfl | rfl
    · rw [Function.update_self]
      exact turn
    · rw [Function.update_of_ne hne]
      exact h.turn _
  · rcases side.eq_or_other that with rfl | rfl
    · rw [Function.update_self]
      exact low
    · rw [Function.update_of_ne hne]
      exact lowOther
  · rcases side.eq_or_other that with rfl | rfl
    · rw [Function.update_self]
      exact high
    · rw [Function.update_of_ne hne]
      exact highOther
  · rcases side.eq_or_other that with rfl | rfl
    · rw [Function.update_self, Function.update_self, set_seat, set_seat_other]
      exact self
    · rw [Function.update_of_ne hne, Function.update_of_ne hne, side.other_other,
        set_seat, set_seat_other]
      exact other

/-- One party climbs two rungs, and the second of them is new. -/
theorem Sound.climb [Suite.Lawful] (h : w.Sound t rungs level mind) {side : Side} {s : Seat}
    {after : State} {x z : Rung} (habove : rungs[level side + 1]? = some x)
    (htop : rungs.length = level side + 2) (hgenuine : z.pair.Genuine)
    (hnext : x.root.createChain x.key z.pair.privateKey = .ok (z.root, z.chain))
    (self : s.Sound t (rungs ++ [z]) (level side + 2) side after (w.seat side.other).sent)
    (hsent : s.sent = (w.seat side).sent)
    (unanswered : ((w.set side s).seat .responder).record = {} →
      (w.set side s).Unanswered t (Function.update mind side after)) :
    (w.set side s).Sound t (rungs ++ [z]) (Function.update level side (level side + 2))
      (Function.update mind side after) := by
  have hturn := h.turn side
  have hlow := h.low side.other
  have hhigh := h.high side.other
  have hparity : rungs.length % 2 ≠ level side.other % 2 := by
    have hother := h.turn side.other
    have hne := side.turn_other
    omega
  have hlast : rungs[rungs.length - 1]? = some x := by
    rw [htop]
    exact habove
  have hlength : (rungs ++ [z]).length = rungs.length + 1 := List.length_append
  have other := (h.facing side).append hlow z hparity
  rw [← hsent] at other
  refine h.set (h.ladder.append hlast hgenuine hnext) ?_ ?_ ?_ ?_ ?_ self other unanswered <;> omega

/-- What the initiator does leaves the responder as it was. -/
theorem Sound.unanswered_before (h : w.Sound t rungs level mind) {s : Seat}
    (hnone : ((w.set .initiator s).seat .responder).record = {}) : w.Unanswered t mind := by
  have hsame : (w.set .initiator s).seat .responder = w.seat .responder :=
    w.set_seat_other .initiator s
  rw [hsame] at hnone
  exact h.unanswered hnone

/-- One device changes, but for the record, whom it trusts and who it is. -/
theorem Sound.onDevice (h : w.Sound t rungs level mind) (side : Side) (d : Device)
    (hrecord : d.stores.loadSession (w.seat side).peer =
      (w.seat side).device.stores.loadSession (w.seat side).peer)
    (htrusted : ∀ key, d.stores.isTrusted (w.seat side).peer key =
      (w.seat side).device.stores.isTrusted (w.seat side).peer key)
    (hown : d.stores.own = (w.seat side).device.stores.own) :
    (w.set side { w.seat side with device := d }).Sound t rungs level mind := by
  have hsame :
      ∀ that, ((w.set side { w.seat side with device := d }).seat that).sent = (w.seat that).sent ∧
      ((w.set side { w.seat side with device := d }).seat that).record = (w.seat that).record := by
    intro that
    rcases side.eq_or_other that with rfl | rfl
    · rw [set_seat]
      exact ⟨rfl, hrecord⟩
    · rw [set_seat_other]
      exact ⟨rfl, rfl⟩
  have hset := h.set h.ladder (h.turn side) (h.low side) (h.high side)
    (h.low side.other) (h.high side.other)
    ((h.seats side).onDevice d hrecord htrusted hown) (h.facing side)
  rw [Function.update_eq_self, Function.update_eq_self] at hset
  refine hset fun hnone => ?_
  have hbefore := h.unanswered ((hsame .responder).2.symm.trans hnone)
  refine ⟨hbefore.pending, (hsame .responder).1.trans hbefore.silent, fun m plain hm => ?_⟩
  rw [(hsame .initiator).1] at hm
  exact hbefore.wrapped m plain hm

theorem Sound.write [Suite.Lawful] (h : w.Sound t rungs level mind) (hd : Distinct rungs)
    (side : Side) (plain : Bytes) :
    ∃ mind', (w.set side ((w.seat side).write plain)).Sound t rungs level mind' := by
  rcases hm : outcome (Engine.encrypt (w.seat side).peer plain) (w.seat side).device with
    ⟨fault | m, d⟩
  · have hwrite : (w.seat side).write plain = { w.seat side with device := d } := by
      rw [Seat.write, hm]
    obtain rfl := Engine.encrypt_error hm
    rw [hwrite]
    exact ⟨mind, h.onDevice side _ rfl (fun _ => rfl) rfl⟩
  · have hwrite : (w.seat side).write plain =
        { w.seat side with device := d, sent := (w.seat side).sent ++ [(m, plain)] } := by
      rw [Seat.write, hm]
    obtain ⟨after, hself, hstored, hpending, hwrapped⟩ := (h.seats side).write h.ladder hd hm
    rw [hwrite]
    have hset := h.set h.ladder (h.turn side) (h.low side) (h.high side)
      (h.low side.other) (h.high side.other) hself ((h.facing side).receives [(m, plain)])
    rw [Function.update_eq_self] at hset
    refine ⟨_, hset fun hnone => ?_⟩
    cases side with
    | responder =>
      rw [set_seat] at hnone
      rw [Seat.record, hstored] at hnone
      cases hnone
    | initiator =>
      have hbefore := h.unanswered_before hnone
      refine ⟨?_, ?_, fun m' plain' hsent => ?_⟩
      · rw [Function.update_self, hpending]
        exact hbefore.pending
      · exact (congrArg Seat.sent (w.set_seat_other .initiator _)).trans hbefore.silent
      · rw [set_seat] at hsent
        rcases List.mem_append.mp hsent with hold | hnew
        · exact hbefore.wrapped m' plain' hold
        · obtain ⟨rfl, -⟩ := Prod.mk.inj (List.mem_singleton.mp hnew)
          rw [hwrapped, State.wrapped, hbefore.pending]
          exact ⟨_, rfl⟩

/-- A message that was accepted with the means to tell its keys keeps the
invariant, and so does one that was refused. -/
theorem Sound.receive [Suite.Lawful] (h : w.Sound t rungs level mind) (hd : Distinct rungs)
    {side : Side} (now : UInt64) {position : Nat} {m : Message} {plain : Bytes}
    (hm : (w.seat side.other).sent[position]? = some (m, plain))
    (hfair : ((w.seat side).decrypt now m).1.isOk = true → w.Fair side m) :
    ∃ rungs' level' mind',
      (w.set side ((w.seat side).receive now position m)).Sound t rungs' level' mind' := by
  rcases hread : (w.seat side).decrypt now m with ⟨fault | text, d⟩
  · have hstores : d.stores = (w.seat side).device.stores := Engine.decrypt_error hread
    rw [Seat.receive_error hread]
    refine ⟨rungs, level, mind, h.onDevice side d ?_ (fun _ => ?_) ?_⟩ <;> rw [hstores]
  · have hfair := hfair (by rw [hread]; rfl)
    obtain ⟨used, hopen⟩ := h.opened hm hfair.stocked
    obtain ⟨after, hreads, hstores⟩ := ((h.seats side).decrypt_ok (h.wrapped hm) hopen).mp hread
    obtain ⟨q, x, i, hx, hq, hon⟩ := h.written hm
    have hstored : d.stores.loadSession (w.seat side).peer = ⟨some after, []⟩ := by
      rw [hstores, Seat.loadSession_storesAfter]
    let s := (w.seat side).took now position m (mind side) after used d
    have hanswered : ∀ mind', ((w.set side s).seat .responder).record = {} →
        (w.set side s).Unanswered t mind' := by
      intro mind' hnone
      cases side with
      | responder =>
        rw [set_seat] at hnone
        exact absurd (hstored.symm.trans hnone) (by simp)
      | initiator =>
        have hbefore := h.unanswered_before hnone
        have hsilent : (w.seat Side.initiator.other).sent = [] := hbefore.silent
        rw [hsilent] at hm
        cases hm
    rw [Seat.receive_ok hopen hreads hread]
    rcases h.place hx hq hon.key hfair.chain with ⟨chain, hold⟩ | ⟨hnew, hnever, habove, htop⟩
    · exact ⟨rungs, _, _, h.set h.ladder (h.turn side) (h.low side) (h.high side)
        (h.low side.other) (h.high side.other)
        ((h.seats side).took_held h.ladder hd hm hx hq hon.key hold hreads hstores)
        (h.facing side) (hanswered _)⟩
    · obtain ⟨z, hgenuine, hnext, hself⟩ :=
        (h.seats side).took_new h.ladder hm habove htop hon.key hnew hnever hreads hstores
      exact ⟨rungs ++ [z], _, _, h.climb habove htop hgenuine hnext hself rfl (hanswered _)⟩

omit [Suite] in
/-- Fresh keys were fresh before more of them were made. -/
theorem nodup_of_set {side : Side} {s : Seat} (hmore : (w.seat side).ratchetKeys <+: s.ratchetKeys)
    (hfresh : ∀ that, ((w.set side s).seat that).ratchetKeys.Nodup) (that : Side) :
    (w.seat that).ratchetKeys.Nodup := by
  rcases side.eq_or_other that with rfl | rfl
  · have hnodup := hfresh that
    rw [set_seat] at hnodup
    exact hnodup.sublist hmore.sublist
  · have hnodup := hfresh side.other
    rw [set_seat_other] at hnodup
    exact hnodup

/-- A conversation in which no tag was right by accident, and no ratchet key
made twice, was so all the time. -/
theorem Regular.of_step {event : Event} (h : (w.step event).Regular) : w.Regular := by
  cases event with
  | write side plain =>
    have hkept : (w.seat side).ratchetKeys <+: ((w.seat side).write plain).ratchetKeys := by simp
    exact ⟨h.sincere, nodup_of_set hkept h.fresh⟩
  | restock side preKeys signedPreKeys =>
    have hkept : (w.seat side).ratchetKeys <+:
        ((w.seat side).restock preKeys signedPreKeys).ratchetKeys := by simp
    exact ⟨h.sincere, nodup_of_set hkept h.fresh⟩
  | deliver side now position =>
    rcases hm : (w.seat side.other).sent[position]? with _ | ⟨m, plain⟩
    · rw [step, hm] at h
      exact h
    · rw [step, hm] at h
      have hkept := (w.seat side).ratchetKeys_receive now position m
      exact ⟨(Bool.or_eq_false_iff.mp h.sincere).1, nodup_of_set hkept h.fresh⟩

theorem Regular.of_run {events : List Event} (h : (w.run events).Regular) : w.Regular := by
  induction events generalizing w with
  | nil => exact h
  | cons event events ih => exact (ih h).of_step

/-- Every event keeps the invariant. -/
theorem Sound.step [Suite.Lawful] (h : w.Sound t rungs level mind) {event : Event}
    (hr : (w.step event).Regular) :
    ∃ rungs' level' mind', (w.step event).Sound t rungs' level' mind' := by
  have hd := h.distinct hr.of_step.fresh
  cases event with
  | write side plain => exact ⟨rungs, level, h.write hd side plain⟩
  | restock side preKeys signedPreKeys =>
    exact ⟨rungs, level, mind, h.onDevice side _ rfl (fun _ => rfl) rfl⟩
  | deliver side now position =>
    rcases hm : (w.seat side.other).sent[position]? with _ | ⟨m, plain⟩
    · rw [Conversation.step, hm]
      exact ⟨rungs, level, mind, h⟩
    · rw [Conversation.step, hm] at hr ⊢
      have hsincere := (Bool.or_eq_false_iff.mp hr.sincere).2
      obtain ⟨rungs', level', mind', hsound⟩ := h.receive hd now hm fun hok => by
        rw [hok, Bool.true_and, Bool.not_eq_false', decide_eq_true_iff] at hsincere
        exact hsincere
      exact ⟨rungs', level', mind', hsound.ladder, hsound.turn, hsound.low,
        hsound.high, hsound.seats,
        fun hnone => ⟨(hsound.unanswered hnone).pending, (hsound.unanswered hnone).silent,
          (hsound.unanswered hnone).wrapped⟩, hsound.answers⟩

/-- And so does a run of events. -/
theorem Sound.run [Suite.Lawful] (h : w.Sound t rungs level mind) {events : List Event}
    (hr : (w.run events).Regular) :
    ∃ rungs' level' mind', (w.run events).Sound t rungs' level' mind' := by
  induction events generalizing w rungs level mind with
  | nil => exact ⟨rungs, level, mind, h⟩
  | cons event events ih =>
    have hlater : ((w.step event).run events).Regular := hr
    obtain ⟨rungs', level', mind', hstep⟩ := h.step hlater.of_run
    exact ih hstep hlater

end Conversation

end DoubleRatchet
