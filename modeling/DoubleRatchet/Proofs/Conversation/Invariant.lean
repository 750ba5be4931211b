import DoubleRatchet.Proofs.Conversation.Seats
import DoubleRatchet.Proofs.Conversation.Standing

/-!
# The invariant of a conversation

Each party has one state in mind that stands on a rung of the ladder: the one
that it has stored, or for the responder, before it has read anything, the one
that it will make. The rungs are the ratchet keys that the parties made and
held, everything written is on them, and everything accepted is spent.
-/
namespace DoubleRatchet

/-- The identity of a party: its key pair and its registration id. -/
def Stores.own (s : Stores) : KeyPair × UInt32 := (s.identity.keyPair, s.identity.registrationId)

@[simp] theorem Stores.own_committed (s : Stores) (peer : Address) (identity : PublicKey)
    (r : Record) :
    (s.committed peer identity r).own = s.own := rfl

@[simp] theorem Stores.own_withoutUsed (s : Stores) (used : Option UInt32) :
    (s.withoutUsed used).own = s.own := by
  cases used <;> rfl

/-- What the parties settled when the session was started. -/
structure Terms where
  own : Side → KeyPair × UInt32
  /-- What the initiator repeats until it is answered. -/
  pending : PendingPreKey
  /-- The state that the responder makes for the session. -/
  answer : State

def Terms.identity (t : Terms) (side : Side) : PublicKey := (t.own side).1.publicKey

/-- A first message names the session as it was started. -/
structure PreKeyMessage.Under (t : Terms) (p : PreKeyMessage) : Prop where
  version : p.version = currentVersion
  registrationId : p.registrationId = (t.own .initiator).2
  preKeyId : p.preKeyId = t.pending.preKeyId
  signedPreKeyId : p.signedPreKeyId = t.pending.signedPreKeyId
  baseKey : p.baseKey = t.pending.baseKey
  identityKey : p.identityKey = t.identity .initiator

/-- A state keeps to the terms. -/
structure State.Abides (t : Terms) (side : Side) (s : State) : Prop where
  localIdentity : s.localIdentity = t.identity side
  remoteIdentity : s.remoteIdentity = t.identity side.other
  baseKey : s.baseKey = t.pending.baseKey
  localRegistrationId : s.localRegistrationId = (t.own side).2
  pending : s.pending = none ∨ side = .initiator ∧ s.pending = some t.pending

theorem State.Abides.congr {t : Terms} {side : Side} {s u : State} (h : s.Abides t side)
    (hsame : s.SameSession u) (hpending : u.pending = none ∨ u.pending = s.pending) :
    u.Abides t side := by
  refine ⟨hsame.localIdentity.trans h.localIdentity, hsame.remoteIdentity.trans h.remoteIdentity,
    hsame.baseKey.trans h.baseKey, hsame.localRegistrationId.trans h.localRegistrationId, ?_⟩
  rcases hpending with hnone | hkept
  · exact .inl hnone
  · rw [hkept]
    exact h.pending

namespace Seat

/-- The stored record is that of the state in mind, or nothing is stored yet
and the state in mind is the answer to come, which holds no chains. -/
structure Minds (t : Terms) (side : Side) (mind : State) (s : Seat) : Prop where
  record : s.record = ⟨some mind, []⟩ ∨ s.record = {} ∧ side = .responder ∧
      mind = t.answer ∧ mind.receivers = []
  trusted : s.device.stores.isTrusted s.peer (t.identity side.other) = true
  own : s.device.stores.own = t.own side

/-- The rungs are what a seat has made and held. -/
structure Climbed (rungs : List Rung) (n : Nat) (s : Seat) : Prop where
  held : ∀ r, r ∈ s.held ↔ ∃ q x, Below rungs n q x ∧ x.key = r
  made : s.ratchetKeys.length = n / 2 + 1
  keys : ∀ q x, rungs[q]? = some x → q % 2 = n % 2 → s.ratchetKeys[q / 2]? = some x.key

/-- A message with a name was accepted. -/
def Took (s : Seat) (inbox : List (Message × Bytes)) (name : PublicKey × UInt32) : Prop :=
  ∃ position ∈ s.accepted, ∃ m plain, inbox[position]? = some (m, plain) ∧ m.inner.name = name

/-- What is accepted is spent while its chain is held, and nothing behind a
chain is neither cached nor lost nor accepted. -/
structure Received (inbox : List (Message × Bytes)) (mind : State) (s : Seat) : Prop where
  accepted : ∀ position ∈ s.accepted, ∃ m plain, inbox[position]? = some (m, plain) ∧
    m.inner.ratchetKey ∈ s.held ∧
    (mind.hasReceiverChain m.inner.ratchetKey = true →
      mind.Spent m.inner.ratchetKey m.inner.counter)
  accounts : mind.Accounts fun name => name ∈ s.lost ∨ s.Took inbox name

variable [Suite]

/-- What a seat has written is on the rungs of its party, one message for each name. -/
structure Sent (t : Terms) (rungs : List Rung) (n : Nat) (side : Side) (mind : State)
    (s : Seat) : Prop where
  written : ∀ m plain, (m, plain) ∈ s.sent → ∃ q x i, rungs[q]? = some x ∧ q ≤ n ∧ q % 2 = n % 2 ∧
    m.inner.On x i (t.identity side) (t.identity side.other) plain ∧
    (q = n → i < mind.sender.chain.index.toNat)
  names : (s.sent.map fun w => w.1.inner.name).Nodup
  wrapped : ∀ p plain, (Message.preKey p, plain) ∈ s.sent → side = .initiator ∧ p.Under t

/-- A seat with the state that its party has in mind, on a rung and with an inbox. -/
structure Sound (t : Terms) (rungs : List Rung) (n : Nat) (side : Side) (mind : State)
    (inbox : List (Message × Bytes)) (s : Seat) : Prop where
  stands : mind.Stands rungs n
  abides : mind.Abides t side
  minds : s.Minds t side mind
  climbed : s.Climbed rungs n
  sent : s.Sent t rungs n side mind
  received : s.Received inbox mind

end Seat

/-- The parity of a party's rungs. -/
def Side.turn : Side → Nat
  | initiator => 1
  | responder => 0

theorem Side.turn_other (side : Side) : side.other.turn ≠ side.turn := by
  cases side <;> decide

namespace Conversation

/-- The responder has not read anything: the initiator only writes first messages. -/
structure Unanswered (t : Terms) (mind : Side → State) (w : Conversation) : Prop where
  pending : (mind .initiator).pending = some t.pending
  silent : (w.seat .responder).sent = []
  wrapped : ∀ m plain, (m, plain) ∈ (w.seat .initiator).sent → ∃ p, m = .preKey p

variable [Suite]

/-- The invariant of a conversation: both parties stand on one ladder. -/
structure Sound (t : Terms) (rungs : List Rung) (level : Side → Nat) (mind : Side → State)
    (w : Conversation) : Prop where
  ladder : Ladder rungs
  turn : ∀ side, level side % 2 = side.turn
  low : ∀ side, level side < rungs.length
  high : ∀ side, rungs.length ≤ level side + 2
  seats : ∀ side, (w.seat side).Sound t rungs (level side) side (mind side) (w.seat side.other).sent
  unanswered : (w.seat .responder).record = {} → w.Unanswered t mind
  answers : ∀ p s, p.Under t → s.own = t.own .responder → s.KeepsFor w.offered (.preKey p) →
    Engine.respond s p = .ok t.answer

end Conversation

namespace Seat

section Frame

variable {t : Terms} {rungs : List Rung} {n : Nat} {side : Side} {mind : State}
  {inbox : List (Message × Bytes)} {s : Seat}

/-- More messages come within reach. -/
theorem Took.append {name : PublicKey × UInt32} (h : s.Took inbox name)
    (more : List (Message × Bytes)) :
    s.Took (inbox ++ more) name := by
  obtain ⟨position, hposition, m, plain, hm, hname⟩ := h
  exact ⟨position, hposition, m, plain, getElem?_append_of_some hm, hname⟩

theorem Received.append (h : s.Received inbox mind) (more : List (Message × Bytes)) :
    s.Received (inbox ++ more) mind := by
  refine ⟨fun position hposition => ?_,
    h.accounts.mono fun name hname => hname.imp_right (Took.append · more)⟩
  obtain ⟨m, plain, hm, hrest⟩ := h.accepted position hposition
  exact ⟨m, plain, getElem?_append_of_some hm, hrest⟩

theorem Received.congr {u : Seat} {after : State} (h : s.Received inbox mind)
    (haccepted : u.accepted = s.accepted) (hheld : u.held = s.held) (hlost : u.lost = s.lost)
    (hreceivers : after.receivers = mind.receivers) (hskipped : after.skipped = mind.skipped) :
    u.Received inbox after := by
  refine ⟨fun position hposition => ?_,
    (h.accounts.congr hreceivers hskipped).mono fun name hname => ?_⟩
  · rw [haccepted] at hposition
    obtain ⟨m, plain, hm, hkey, hspent⟩ := h.accepted position hposition
    refine ⟨m, plain, hm, hheld ▸ hkey,
      fun hholds => State.Spent.congr (hspent ?_) hreceivers hskipped⟩
    rw [State.hasReceiverChain, State.receiverChain?_congr hreceivers] at hholds
    exact hholds
  · rw [Took, haccepted, hlost]
    exact hname

theorem Climbed.congr {u : Seat} (h : s.Climbed rungs n) (hheld : u.held = s.held)
    (hmade : u.ratchetKeys = s.ratchetKeys) : u.Climbed rungs n := by
  refine ⟨fun r => ?_, by rw [hmade]; exact h.made, fun q x hx hq => ?_⟩
  · rw [hheld]
    exact h.held r
  · rw [hmade]
    exact h.keys q x hx hq

/-- The other party makes a rung. -/
theorem Climbed.append (h : s.Climbed rungs n) (hlow : n < rungs.length) (z : Rung)
    (hz : rungs.length % 2 ≠ n % 2) :
    s.Climbed (rungs ++ [z]) n := by
  have hbelow : ∀ q x, Below (rungs ++ [z]) n q x ↔ Below rungs n q x := by
    intro q x
    refine ⟨fun h => ⟨?_, h.lt, h.turn⟩, fun h => h.append [z]⟩
    have hlt := h.lt
    rw [← List.getElem?_append_left (by omega)]
    exact h.rung
  refine ⟨fun r => ?_, h.made, fun q x hx hq => ?_⟩
  · simp only [hbelow]
    exact h.held r
  · have hlt := lt_of_getElem? hx
    rw [List.length_append, List.length_singleton] at hlt
    have hne : q ≠ rungs.length := by
      rintro rfl
      exact hz hq
    rw [List.getElem?_append_left (by omega)] at hx
    exact h.keys q x hx hq

variable [Suite]

theorem Sent.append (h : s.Sent t rungs n side mind) (more : List Rung) :
    s.Sent t (rungs ++ more) n side mind := by
  refine ⟨fun m plain hm => ?_, h.names, h.wrapped⟩
  obtain ⟨q, x, i, hx, hrest⟩ := h.written m plain hm
  exact ⟨q, x, i, getElem?_append_of_some hx, hrest⟩

/-- A name belongs to one position. -/
theorem Sent.position_eq (h : s.Sent t rungs n side mind) {i j : Nat} {m m' : Message}
    {plain plain' : Bytes} (hi : s.sent[i]? = some (m, plain)) (hj : s.sent[j]? = some (m', plain'))
    (hname : m.inner.name = m'.inner.name) :
    i = j := by
  have hfirst : (s.sent.map fun x => x.1.inner.name)[i]? = some m.inner.name := by
    rw [List.getElem?_map, hi]; rfl
  have hsecond : (s.sent.map fun x => x.1.inner.name)[j]? = some m'.inner.name := by
    rw [List.getElem?_map, hj]; rfl
  rw [hname] at hfirst
  exact (List.getElem?_inj (lt_of_getElem? hfirst) h.names).mp (hfirst.trans hsecond.symm)

theorem Sound.append (h : s.Sound t rungs n side mind inbox) (hlow : n < rungs.length) (z : Rung)
    (hz : rungs.length % 2 ≠ n % 2) : s.Sound t (rungs ++ [z]) n side mind inbox :=
  ⟨h.stands.append [z], h.abides, h.minds, h.climbed.append hlow z hz,
    h.sent.append [z], h.received⟩

theorem Sound.receives (h : s.Sound t rungs n side mind inbox) (more : List (Message × Bytes)) :
    s.Sound t rungs n side mind (inbox ++ more) :=
  ⟨h.stands, h.abides, h.minds, h.climbed, h.sent, h.received.append more⟩

/-- All that matters of the device is the record, whom it trusts and who it is. -/
theorem Sound.onDevice (h : s.Sound t rungs n side mind inbox) (d : Device)
    (hrecord : d.stores.loadSession s.peer = s.device.stores.loadSession s.peer)
    (htrusted : ∀ key, d.stores.isTrusted s.peer key = s.device.stores.isTrusted s.peer key)
    (hown : d.stores.own = s.device.stores.own) :
    ({ s with device := d } : Seat).Sound t rungs n side mind inbox := by
  refine ⟨h.stands, h.abides, ⟨?_, ?_, hown.trans h.minds.own⟩, h.climbed.congr rfl rfl,
    ⟨h.sent.written, h.sent.names, h.sent.wrapped⟩, ⟨h.received.accepted, h.received.accounts⟩⟩
  · have hsame : ({ s with device := d } : Seat).record = s.record := hrecord
    rw [hsame]
    exact h.minds.record
  · exact (htrusted _).trans h.minds.trusted

end Frame

end Seat

end DoubleRatchet
