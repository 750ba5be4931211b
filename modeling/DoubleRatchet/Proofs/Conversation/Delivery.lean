import DoubleRatchet.Proofs.Conversation.Events
import DoubleRatchet.Proofs.Conversation.Opening

/-!
# Delivery

In every run of a conversation a message that can be read is read as what was
written, in whatever order messages arrive and whoever writes when. After that
it is a duplicate, as long as its chain is held.
-/
namespace DoubleRatchet

namespace Conversation

variable [Suite] {t : Terms} {rungs : List Rung} {level : Side → Nat} {mind : Side → State}
  {w : Conversation} {side : Side} {position : Nat} {m : Message} {plain : Bytes}

/-- What is behind its chain, not lost and not accepted is cached, and does not expire. -/
theorem Sound.cached (h : w.Sound t rungs level mind)
    (hm : (w.seat side.other).sent[position]? = some (m, plain))
    (hnot : position ∉ (w.seat side).accepted) {now : UInt64} (hready : w.Deliverable side now m)
    {chain : ChainKey} (hold : (mind side).receiverChain? m.inner.ratchetKey = some chain)
    (hbehind : m.inner.counter < chain.index) :
    ((mind side).expire (w.seat side).bounds now).skipped.Has m.inner.name := by
  have hseat := h.seats side
  have hchain : (w.seat side).chain? m.inner.ratchetKey = some chain :=
    (hseat.minds.chain?_eq _).trans hold
  have hrecord : (w.seat side).record = ⟨some (mind side), []⟩ :=
    hseat.minds.stored (by rw [hchain]; rfl)
  have hindex : (w.seat side).index m.inner.ratchetKey = chain.index.toNat := by
    rw [Seat.index, hchain]; rfl
  obtain ⟨hkept, hyoung⟩ := hready.kept (by rw [hindex]; exact UInt32.lt_iff_toNat_lt.mp hbehind)
  rcases hseat.received.accounts _ chain hold _ hbehind with hcached | hlost | htook
  · have hexpire : ((mind side).expire (w.seat side).bounds now).skipped.Has m.inner.name ∨
        m.inner.name ∈ ((mind side).expiring (w.seat side).bounds now).map SkippedKey.name :=
      State.has_expire hcached
    rcases hexpire with hstays | hexpires
    · exact hstays
    · refine absurd ?_ hyoung
      rw [Seat.expiring, hrecord]
      exact hexpires
  · exact absurd hlost hkept
  · obtain ⟨position', haccepted, m', plain', hm', hname⟩ := htook
    obtain rfl := (h.seats side.other).sent.position_eq hm' hm hname
    exact absurd haccepted hnot

/-- A message that can be read and was not accepted yet is read. -/
theorem Sound.delivers [Suite.Lawful] (h : w.Sound t rungs level mind) (hd : Distinct rungs)
    (hm : (w.seat side.other).sent[position]? = some (m, plain))
    (hnot : position ∉ (w.seat side).accepted) {now : UInt64} (hready : w.Deliverable side now m) :
    ∃ d, (w.seat side).decrypt now m = (.ok plain, d) := by
  have hseat := h.seats side
  obtain ⟨used, hopen⟩ := h.opened hm hready.stocked
  obtain ⟨q, x, i, hx, hq, hon⟩ := h.written hm
  have hindex : ∀ {chain}, (mind side).receiverChain? m.inner.ratchetKey = chain →
      (w.seat side).index m.inner.ratchetKey = chain.elim 0 (·.index.toNat) := by
    rintro chain rfl
    rw [Seat.index, hseat.minds.chain?_eq]
  have hread : ∃ after e,
      (mind side).Reads (w.seat side).bounds now m.inner
        (w.seat side).device.entropy plain after e := by
    rcases h.place hx hq hon.key hready.chain with ⟨chain, hold⟩ | ⟨hnew, -, habove, -⟩
    · have hnear := hready.near
      rw [hindex hold] at hnear
      obtain ⟨after, hreads⟩ := hseat.stands.reads_of_held h.ladder hd hx hq hon hold hnear
        (fun hbehind => h.cached hm hnot hready hold hbehind) (w.seat side).device.entropy
      exact ⟨after, _, hreads⟩
    · have hnear := hready.near
      rw [hindex hnew, Option.elim_none, Nat.zero_add] at hnear
      obtain ⟨after, hreads⟩ :=
        hseat.stands.reads_of_new h.ladder habove hon hnew hnear (w.seat side).device.entropy
      exact ⟨after, _, hreads⟩
  obtain ⟨after, e, hreads⟩ := hread
  exact ⟨⟨_, e⟩, (hseat.decrypt_ok (h.wrapped hm) hopen).mpr ⟨after, hreads, rfl⟩⟩

/-- With the means to tell its keys a message is read as nothing but what was written. -/
theorem Sound.plain_of_read (h : w.Sound t rungs level mind) (hd : Distinct rungs)
    (hm : (w.seat side.other).sent[position]? = some (m, plain)) (hfair : w.Fair side m)
    {now : UInt64} {text : Bytes} {d : Device}
    (hread : (w.seat side).decrypt now m = (.ok text, d)) : text = plain := by
  have hseat := h.seats side
  obtain ⟨used, hopen⟩ := h.opened hm hfair.stocked
  obtain ⟨after, hreads, -⟩ := (hseat.decrypt_ok (h.wrapped hm) hopen).mp hread
  obtain ⟨q, x, i, hx, hq, hon⟩ := h.written hm
  have hexpire := hseat.stands.expire (w.seat side).bounds now
  have hsame := State.receiverChain?_expire (w.seat side).bounds now (mind side) x.key
  have hshort : m.inner.counter.toNat ≠ UInt32.size - 1 := hon.counter ▸ hon.short
  obtain ⟨keys, hkeys, -, hplain⟩ := hreads.keysFor?
  have hchain := h.place hx hq hon.key hfair.chain
  rw [hon.key] at hkeys hchain
  have hrung : keys = x.keys m.inner.counter.toNat := by
    rcases hchain with ⟨chain, hold⟩ | ⟨hnew, -, habove, -⟩
    · exact hexpire.keysFor?_of_held h.ladder hd hx hq (hsame.trans hold) hshort hkeys
    · rw [hexpire.keysFor?_of_new h.ladder habove (hsame.trans hnew)] at hkeys
      exact (Option.some_inj.mp hkeys).symm
  rw [hrung, hon.counter, hon.decrypts] at hplain
  exact (Option.some_inj.mp hplain).symm

/-- What is read is taken note of. -/
theorem Sound.accepts [Suite.Lawful] (h : w.Sound t rungs level mind)
    (hm : (w.seat side.other).sent[position]? = some (m, plain)) {now : UInt64}
    (hstocked : (w.seat side).record.current.isSome = true ∨
      (w.seat side).device.stores.KeepsFor w.offered m)
    {text : Bytes} {d : Device} (hread : (w.seat side).decrypt now m = (.ok text, d)) :
    position ∈ ((w.step (.deliver side now position)).seat side).accepted := by
  obtain ⟨used, hopen⟩ := h.opened hm hstocked
  obtain ⟨after, hreads, -⟩ := ((h.seats side).decrypt_ok (h.wrapped hm) hopen).mp hread
  have hseat :
      (w.step (.deliver side now position)).seat side = (w.seat side).receive now position m := by
    rw [Conversation.step, hm]
    exact set_seat w side _
  rw [hseat, Seat.receive_ok hopen hreads hread]
  exact List.mem_append_right _ List.mem_cons_self

/-- A message that was accepted is a duplicate while its chain is held. -/
theorem Sound.refuses (h : w.Sound t rungs level mind)
    (hm : (w.seat side.other).sent[position]? = some (m, plain))
    (haccepted : position ∈ (w.seat side).accepted)
    (hheld : ((w.seat side).chain? m.inner.ratchetKey).isSome = true) (now : UInt64) :
    ∃ index, (w.seat side).decrypt now m =
      (.error (.message (.duplicate index m.inner.counter)), (w.seat side).device) := by
  have hseat := h.seats side
  have hstored : (w.seat side).record.current.isSome = true := by
    rw [hseat.minds.stored hheld]
    rfl
  obtain ⟨used, hopen⟩ := h.opened hm (.inl hstored)
  obtain ⟨m', plain', hm', -, hspent⟩ := hseat.received.accepted position haccepted
  obtain ⟨rfl, rfl⟩ := Prod.mk.inj (Option.some_inj.mp (hm.symm.trans hm'))
  rw [hseat.minds.chain?_eq] at hheld
  obtain ⟨q, x, i, hx, hq, hon⟩ := h.written hm
  exact Engine.decrypt_spent hopen rfl (hspent hheld) (hon.version.trans hseat.stands.version.symm)

end Conversation

/-- Two parties start from a published bundle and write to each other over a
network that may delay, reorder, drop and repeat messages. Whatever was written,
accepted and refused so far: a message that was not accepted yet is read as the
plaintext that was written, if the receiver never held its chain or still holds
it, it is not too far ahead, its key is not lost and, at first, its pre-keys are
still stored; and a message that was accepted is refused as a duplicate, with
nothing changed, while its chain is held. -/
theorem delivery [Suite] [Suite.Lawful] {o : Opening} (h : o.Fresh) {w : Conversation}
    (hw : o.Reaches w) (hr : w.Regular) {side : Side} {position : Nat} {m : Message} {plain : Bytes}
    (hm : (w.seat side.other).sent[position]? = some (m, plain)) (now : UInt64) :
    (position ∉ (w.seat side).accepted → w.Deliverable side now m →
      ((w.seat side).decrypt now m).1 = .ok plain ∧
        position ∈ ((w.step (.deliver side now position)).seat side).accepted) ∧
      (position ∈ (w.seat side).accepted → ((w.seat side).chain? m.inner.ratchetKey).isSome = true →
        ∃ index, (w.seat side).decrypt now m =
          (.error (.message (.duplicate index m.inner.counter)), (w.seat side).device)) := by
  obtain ⟨events, rfl⟩ := hw
  obtain ⟨t, rungs, level, mind, hopening⟩ := h.sound
  obtain ⟨rungs, level, mind, hsound⟩ := hopening.run hr
  refine ⟨fun hnot hready => ?_, fun haccepted hheld => hsound.refuses hm haccepted hheld now⟩
  obtain ⟨d, hread⟩ := hsound.delivers (hsound.distinct hr.fresh) hm hnot hready
  exact ⟨congrArg Prod.fst hread, hsound.accepts hm hready.stocked hread⟩

/-- A device is a party of a conversation in which its peer wrote a message, and
has the means to tell the keys of the message. -/
def Device.Expects [Suite] (c : Config) (peer : Address) (m : Message) (plain : Bytes)
    (d : Device) : Prop :=
  ∃ (o : Opening) (w : Conversation) (side : Side) (position : Nat),
    o.Fresh ∧ o.Reaches w ∧ w.Regular ∧
    (w.seat side.other).sent[position]? = some (m, plain) ∧ w.Fair side m ∧
    (w.seat side).device = d ∧ (w.seat side).peer = peer ∧ (w.seat side).bounds = c

/-- A device that expects a message reads it as what was written, if at all. -/
theorem Device.Expects.plain_of_decrypt [Suite] [Suite.Lawful] {c : Config} {peer : Address}
    {m : Message} {plain : Bytes} {d : Device} (h : d.Expects c peer m plain) {now : UInt64}
    {text : Bytes} {d' : Device}
    (hread : outcome (Engine.decrypt c now peer m) d = (.ok text, d')) : text = plain := by
  obtain ⟨o, w, side, position, hfresh, ⟨events, rfl⟩, hregular, hm, hfair, rfl, rfl, rfl⟩ := h
  obtain ⟨t, rungs, level, mind, hopening⟩ := hfresh.sound
  obtain ⟨rungs, level, mind, hsound⟩ := hopening.run hregular
  exact hsound.plain_of_read (hsound.distinct hregular.fresh) hm hfair hread

namespace Small

def published : PublishedBundle :=
  match PreKeys.currentBundle publisher.stores 1 with
  | .ok p => p
  | .error _ => ⟨0, 0, [], 0, [], [], []⟩

def bundle : Bundle :=
  match Bundle.ofPublished published (some 2) with
  | .ok b => b
  | .error _ => ⟨0, 0, none, 0, default, [], default⟩

def opening : Opening where
  publisher := publisher
  responder := publisher
  published := published
  choice := some 2
  bundle := bundle
  initiator := device 1
  started := (outcome (@Engine.processBundle suite {} bob bundle) (device 1)).2
  peer
    | .initiator => bob
    | .responder => alice
  bounds _ := {}

/-- From what Bob published a new device may start with any one-time key on it or without one. -/
theorem fresh_of_started {choice : Option UInt32} {b : Bundle} {started : Device}
    (hread : Bundle.ofPublished published choice = .ok b)
    (hstarted : outcome (@Engine.processBundle suite {} bob b) (device 1) = (.ok (), started)) :
    @Opening.Fresh suite { opening with choice, bundle := b, started } := by
  let := suite
  have halice : (device 1).stores.Genuine := genuine_run {} (genuine_keyPair _) _ _ []
  have hbob : publisher.stores.Genuine := genuine_run {} (genuine_keyPair _) _ _ _
  have hpublished : PreKeys.currentBundle publisher.stores 1 = .ok published := by decide +kernel
  have hrecords : (device 1).stores.loadSession bob = {} ∧
      publisher.stores.loadSession alice = {} := by
    decide +kernel
  have htrusted : publisher.stores.isTrusted alice
      (device 1).stores.identity.keyPair.publicKey = true := by
    decide +kernel
  exact ⟨⟨halice, hbob⟩, .current 1 hpublished, hread, hstarted, hrecords, htrusted⟩

theorem fresh_opening : @Opening.Fresh suite opening :=
  fresh_of_started (by decide +kernel) (Prod.ext (by decide +kernel) rfl)

/-- The responder gets the second message of the initiator first and answers it, and
reads a message of the initiator's next chain, before the first one arrives. -/
def disorder : List Event :=
  [.write .initiator [104, 105], .write .initiator [104, 111], .deliver .responder 0 1,
    .write .responder [121, 111], .deliver .initiator 0 0, .write .initiator [111, 107],
    .deliver .responder 0 2]

def disordered : Conversation := @Conversation.run suite opening.conversation disorder

end Small

/-- The first message is read when it comes in last, and the second one is a duplicate by then. -/
theorem delivery_out_of_order :
    ∃ m m' index, (Small.disordered.seat .initiator).sent[0]? = some (m, [104, 105]) ∧
      (Small.disordered.seat .initiator).sent[1]? = some (m', [104, 111]) ∧
      (@Seat.decrypt Small.suite (Small.disordered.seat .responder) 9 m).1 = .ok [104, 105] ∧
      @Seat.decrypt Small.suite (Small.disordered.seat .responder) 9 m' =
        (.error (.message (.duplicate index m'.inner.counter)),
          (Small.disordered.seat .responder).device) := by
  have hreached : @Opening.Reaches Small.suite Small.opening Small.disordered :=
    ⟨Small.disorder, rfl⟩
  have hregular : Small.disordered.Regular := by decide +kernel
  have hfirst : ((Small.disordered.seat .initiator).sent[0]?).map Prod.snd = some [104, 105] := by
    decide +kernel
  have hsecond : ((Small.disordered.seat .initiator).sent[1]?).map Prod.snd = some [104, 111] := by
    decide +kernel
  have hnot : 0 ∉ (Small.disordered.seat .responder).accepted := by decide +kernel
  have haccepted : 1 ∈ (Small.disordered.seat .responder).accepted := by decide +kernel
  have hready : ∀ x ∈ (Small.disordered.seat .initiator).sent[0]?,
      Small.disordered.Deliverable .responder 9 x.1 := by
    decide +kernel
  have hheld : ∀ x ∈ (Small.disordered.seat .initiator).sent[1]?,
      ((Small.disordered.seat .responder).chain? x.1.inner.ratchetKey).isSome = true := by
    decide +kernel
  obtain ⟨⟨m, _⟩, hm, rfl⟩ := Option.map_eq_some_iff.mp hfirst
  obtain ⟨⟨m', _⟩, hm', rfl⟩ := Option.map_eq_some_iff.mp hsecond
  have hdeliverable := hready _ hm
  have hchain := hheld _ hm'
  have hother : Side.responder.other = .initiator := rfl
  rw [← hother] at hm hm'
  have hread := (@delivery Small.suite Small.lawful _ Small.fresh_opening _ hreached hregular
    .responder _ _ _ hm 9).1 hnot hdeliverable
  obtain ⟨index, hrefused⟩ :=
    (@delivery Small.suite Small.lawful _ Small.fresh_opening _ hreached hregular
      .responder _ _ _ hm' 9).2 haccepted hchain
  rw [hother] at hm hm'
  exact ⟨m, m', index, hm, hm', hread.1, hrefused⟩

end DoubleRatchet
