import DoubleRatchet.Proofs.Conversation.Invariant
import DoubleRatchet.Proofs.Engine.PreKeys

/-!
# The opening of a conversation

The responder publishes a bundle and the initiator starts a session from it.
Then two rungs of the ladder are there: the first one is the signed pre-key,
with what both sides derive from the agreements, and the second one is the
initiator's.
-/
namespace DoubleRatchet

/-- How two devices come to a conversation. -/
structure Opening where
  /-- The responder's device, before it publishes and after. -/
  publisher : Device
  responder : Device
  published : PublishedBundle
  /-- The one-time pre-key that the initiator asks for, and the bundle that it gets. -/
  choice : Option UInt32
  bundle : Bundle
  /-- The initiator's device, before it works on the bundle and after. -/
  initiator : Device
  started : Device
  /-- What each party calls the other one. -/
  peer : Side → Address
  bounds : Side → Config

namespace Opening

/-- The devices as they are when the conversation opens. -/
def device (o : Opening) : Side → Device
  | .initiator => o.started
  | .responder => o.responder

/-- A seat at the opening: the initiator holds a chain, and the responder sends
on its signed pre-key. -/
def seat (o : Opening) (side : Side) : Seat where
  device := o.device side
  peer := o.peer side
  bounds := o.bounds side
  held := match side with
    | .initiator => [o.bundle.signedPreKey]
    | .responder => []
  ratchetKeys := match side with
    | .initiator => (o.started.states (o.peer .initiator)).map State.senderRatchetKey
    | .responder => [o.bundle.signedPreKey]

def conversation (o : Opening) : Conversation := { seat := o.seat, offered := o.responder.stores }

/-- Neither party has a record for the other one or has pinned another identity,
and the initiator starts from a bundle that the responder published. -/
structure Fresh [Suite] (o : Opening) : Prop where
  genuine : o.initiator.stores.Genuine ∧ o.publisher.stores.Genuine
  published : Published o.publisher o.published o.responder
  read : Bundle.ofPublished o.published o.choice = .ok o.bundle
  started : outcome
      (Engine.processBundle (o.bounds .initiator) (o.peer .initiator) o.bundle) o.initiator =
    (.ok (), o.started)
  records : o.initiator.stores.loadSession (o.peer .initiator) = {} ∧
    o.responder.stores.loadSession (o.peer .responder) = {}
  trusted : o.responder.stores.isTrusted (o.peer .responder)
      o.initiator.stores.identity.keyPair.publicKey = true

end Opening

variable [Suite]

/-- A conversation is reached by some events after the opening. -/
def Opening.Reaches (o : Opening) (w : Conversation) : Prop :=
  ∃ events, o.conversation.run events = w

/-- The responder's state depends on who it is and on the pre-keys that are named. -/
theorem respond_congr {s offered : Stores} {p : PreKeyMessage} (hown : s.own = offered.own)
    (hkeeps : s.KeepsFor offered (.preKey p)) : Engine.respond s p = Engine.respond offered p := by
  obtain ⟨hpair, hid⟩ := Prod.mk.inj hown
  obtain ⟨hsigned, honeTime⟩ := hkeeps
  have hload : s.loadSignedPreKey p.signedPreKeyId = offered.loadSignedPreKey p.signedPreKeyId := by
    rw [Stores.loadSignedPreKey, Stores.loadSignedPreKey, hsigned]
  have hloads : p.preKeyId.mapM s.loadPreKey = p.preKeyId.mapM offered.loadPreKey := by
    cases hp : p.preKeyId with
    | none => rfl
    | some id =>
      rw [hp] at honeTime
      have hget : s.preKeys.get? id = offered.preKeys.get? id := honeTime
      have hload : s.loadPreKey id = offered.loadPreKey id := by
        rw [Stores.loadPreKey, Stores.loadPreKey, hget]
      rw [Option.mapM_some, Option.mapM_some, hload]
  unfold Engine.respond
  rw [hload, hloads, hpair, hid]

/-- Whoever offers a bundle finds the pre-keys that are named in it. -/
theorem Stores.Offers.load {s : Stores} {b : Bundle} (h : s.Offers b) (hs : s.Genuine) :
    ∃ signed oneTime, s.loadSignedPreKey b.signedPreKeyId = .ok signed ∧
      (b.preKey.map Prod.fst).mapM s.loadPreKey = .ok oneTime ∧ signed.keyPair.Genuine ∧
      signed.keyPair.publicKey = b.signedPreKey ∧
      (∀ pair ∈ oneTime.map PreKeyRecord.keyPair, pair.Genuine) ∧
      (oneTime.map PreKeyRecord.keyPair).map KeyPair.publicKey = b.preKey.map Prod.snd := by
  obtain ⟨signed, hsigned, hkey⟩ := h.signed
  have hload : s.loadSignedPreKey b.signedPreKeyId = .ok signed := by
    rw [Stores.loadSignedPreKey, hsigned]
  have hgenuine := (hs.signedPreKeys _ _ hsigned).2
  have honeTime := h.oneTime
  cases hb : b.preKey with
  | none => exact ⟨signed, none, hload, rfl, hgenuine, hkey, by simp, rfl⟩
  | some k =>
    obtain ⟨r, hr, hk⟩ := honeTime k hb
    refine ⟨signed, some r, hload, ?_, hgenuine, hkey, ?_, congrArg some hk⟩
    · rw [Option.map_some, Option.mapM_some, Stores.loadPreKey, hr]
      rfl
    · rintro _ ⟨⟩
      exact (hs.preKeys _ _ hr).2

/-- What the responder makes of the secrets that are agreed on with an initiator. -/
def answered (s : Stores) (signed : KeyPair) (secrets : List (Octets 32))
    (identity baseKey : PublicKey) (registrationId : UInt32) : State where
  version := currentVersion
  localIdentity := s.identity.keyPair.publicKey
  remoteIdentity := identity
  rootKey := (deriveRoot secrets).1
  sender := ⟨signed, (deriveRoot secrets).2⟩
  baseKey := baseKey
  localRegistrationId := s.identity.registrationId
  remoteRegistrationId := registrationId

/-- What the initiator derived from a bundle, the responder derives from a first
message that names it. -/
theorem Stores.Offers.respond [Suite.Lawful] {s : Stores} {b : Bundle} (h : s.Offers b)
    (hs : s.Genuine) {a : Stores} (ha : a.Genuine) {base : KeyPair} (hbase : base.Genuine)
    {secrets : List (Octets 32)} (hsecrets : (Engine.initiator a b base).secrets = .ok secrets) :
    ∃ signed : KeyPair, signed.Genuine ∧ signed.publicKey = b.signedPreKey ∧ ∀ p : PreKeyMessage,
      p.preKeyId = b.preKey.map Prod.fst → p.signedPreKeyId = b.signedPreKeyId →
      p.baseKey = base.publicKey →
      p.identityKey = a.identity.keyPair.publicKey →
      Engine.respond s p =
        .ok (answered s signed secrets p.identityKey p.baseKey p.registrationId) := by
  obtain ⟨signed, oneTime, hload, hloads, hsigned, hkey, honeTime, hkeys⟩ := h.load hs
  obtain ⟨secrets', hours, htheirs⟩ :=
    secrets_agree ha.identity hbase hs.identity hsigned honeTime b.signedPreKey signed.keyPair
  rw [hkey, hkeys, ← h.identity] at hours
  obtain rfl := Except.ok.inj (hsecrets.symm.trans hours)
  refine ⟨signed.keyPair, hsigned, hkey, fun p hpreKey hsignedId hbaseKey hidentity => ?_⟩
  refine Engine.respond_ok.mpr ⟨signed, oneTime, _, ?_, ?_,
    Responder.state_ok.mpr ⟨secrets, ?_, rfl⟩, rfl⟩
  · rw [hsignedId]
    exact hload
  · rw [hpreKey]
    exact hloads
  · rw [hidentity, hbaseKey]
    exact htheirs

/-- The ladder of two rungs: the signed pre-key with what the secrets give, and
the initiator's pair with the chain that it makes. -/
def firstRungs (signed sending : KeyPair) (secrets : List (Octets 32)) (root : RootKey)
    (chain : ChainKey) :
    List Rung :=
  [⟨signed, (deriveRoot secrets).1, (deriveRoot secrets).2⟩, ⟨sending, root, chain⟩]

section FirstRungs

variable {signed sending : KeyPair} {secrets : List (Octets 32)} {root : RootKey} {chain : ChainKey}

theorem ladder_firstRungs [Suite.Lawful] (hsigned : signed.Genuine) (hsending : sending.Genuine)
    (hchain : (deriveRoot secrets).1.createChain signed.publicKey sending.privateKey =
      .ok (root, chain)) :
    Ladder (firstRungs signed sending secrets root chain) := by
  have hfirst : Ladder [⟨signed, (deriveRoot secrets).1, (deriveRoot secrets).2⟩] := by
    refine ⟨fun x hx => ?_, fun x hx => ?_, fun i x y hx hy => ?_⟩
    · exact List.mem_singleton.mp hx ▸ hsigned
    · exact List.mem_singleton.mp hx ▸ rfl
    · have hlt := lt_of_getElem? hy
      rw [List.length_singleton] at hlt
      omega
  exact hfirst.append rfl hsending hchain

/-- A state on the second rung that holds the chain of the first one. -/
theorem stands_initiator {s : State} (hnew : s.New) (hsender : s.sender = ⟨sending, chain⟩)
    (hroot : s.rootKey = root)
    (hreceivers : s.receivers = [⟨signed.publicKey, (deriveRoot secrets).2⟩]) :
    s.Stands (firstRungs signed sending secrets root chain) 1 := by
  refine ⟨hnew.coherent, hnew.version, ⟨_, 0, rfl, by decide, hsender, hroot⟩,
    fun ch hch => ?_, fun e he => ?_⟩
  · rw [hreceivers] at hch
    exact ⟨0, _, 0, ⟨rfl, by decide, by decide⟩, by decide, List.mem_singleton.mp hch⟩
  · rw [hnew.skipped] at he
    cases he

/-- A state on the first rung, before it has read anything. -/
theorem stands_responder {s : State} (hnew : s.New)
    (hsender : s.sender = ⟨signed, (deriveRoot secrets).2⟩)
    (hroot : s.rootKey = (deriveRoot secrets).1) (hreceivers : s.receivers = []) :
    s.Stands (firstRungs signed sending secrets root chain) 0 := by
  refine ⟨hnew.coherent, hnew.version, ⟨_, 0, rfl, by decide, hsender, hroot⟩,
    fun ch hch => ?_, fun e he => ?_⟩
  · rw [hreceivers] at hch
    cases hch
  · rw [hnew.skipped] at he
    cases he

theorem climbed_initiator {s : Seat} (hheld : s.held = [signed.publicKey])
    (hmade : s.ratchetKeys = [sending.publicKey]) :
    s.Climbed (firstRungs signed sending secrets root chain) 1 := by
  refine ⟨fun r => ?_, by rw [hmade]; rfl, fun q x hx hq => ?_⟩
  · rw [hheld, List.mem_singleton]
    constructor
    · rintro rfl
      exact ⟨0, _, ⟨rfl, by decide, by decide⟩, rfl⟩
    · rintro ⟨q, x, hbelow, rfl⟩
      have hlt := hbelow.lt
      have hrung := hbelow.rung
      rw [show q = 0 by omega] at hrung
      obtain rfl := Option.some_inj.mp hrung
      rfl
  · have hlt : q < 2 := lt_of_getElem? hx
    rw [show q = 1 by omega] at hx ⊢
    obtain rfl := Option.some_inj.mp hx
    rw [hmade]
    rfl

theorem climbed_responder {s : Seat} (hheld : s.held = [])
    (hmade : s.ratchetKeys = [signed.publicKey]) :
    s.Climbed (firstRungs signed sending secrets root chain) 0 := by
  refine ⟨fun r => ?_, by rw [hmade]; rfl, fun q x hx hq => ?_⟩
  · rw [hheld]
    constructor
    · intro hr
      cases hr
    · rintro ⟨q, x, hbelow, -⟩
      exact absurd hbelow.lt (Nat.not_lt_zero q)
  · have hlt : q < 2 := lt_of_getElem? hx
    rw [show q = 0 by omega] at hx ⊢
    obtain rfl := Option.some_inj.mp hx
    rw [hmade]
    rfl

end FirstRungs

omit [Suite] in
/-- A new state accounts for everything: its chains have no past. -/
theorem State.New.accounts {s : State} (h : s.New) (other : PublicKey × UInt32 → Prop) :
    s.Accounts other := by
  intro r chain hold n hn
  have hmem := State.mem_of_receiverChain? hold
  rcases h.receivers with hnone | ⟨ch, hone, hindex⟩
  · rw [hnone] at hmem
    cases hmem
  · rw [hone, List.mem_singleton] at hmem
    have hstart : chain.index = 0 := by rw [← hindex, ← hmem]
    rw [hstart, UInt32.lt_iff_toNat_lt] at hn
    exact absurd hn (Nat.not_lt_zero _)

/-- Nothing was written or accepted yet. -/
theorem Seat.Sound.opening {t : Terms} {rungs : List Rung} {n : Nat} {side : Side} {mind : State}
    {s : Seat} (hnew : mind.New) (hstands : mind.Stands rungs n) (habides : mind.Abides t side)
    (hminds : s.Minds t side mind) (hclimbed : s.Climbed rungs n) (hsent : s.sent = [])
    (haccepted : s.accepted = []) (inbox : List (Message × Bytes)) :
    s.Sound t rungs n side mind inbox := by
  refine ⟨hstands, habides, hminds, hclimbed, ⟨fun m plain hm => ?_, ?_, fun p plain hm => ?_⟩,
    ⟨fun position hposition => ?_, hnew.accounts _⟩⟩
  · rw [hsent] at hm
    cases hm
  · rw [hsent]
    exact List.nodup_nil
  · rw [hsent] at hm
    cases hm
  · rw [haccepted] at hposition
    cases hposition

namespace Opening

/-- The terms that the parties settle on. -/
def terms (o : Opening) (base : KeyPair) (answer : State) : Terms where
  own side := (o.device side).stores.own
  pending := ⟨o.bundle.preKey.map Prod.fst, o.bundle.signedPreKeyId, base.publicKey⟩
  answer := answer

/-- The state that the initiator has stored, on the second of the first two
rungs, and that the responder will answer to. -/
structure Agreed (o : Opening) (t : Terms) (own : State) (signed sending : KeyPair)
    (secrets : List (Octets 32)) (root : RootKey) (chain : ChainKey) : Prop where
  genuine : signed.Genuine ∧ sending.Genuine
  key : signed.publicKey = o.bundle.signedPreKey
  sends : (deriveRoot secrets).1.createChain signed.publicKey sending.privateKey = .ok (root, chain)
  new : own.New
  sender : own.sender = ⟨sending, chain⟩
  rootKey : own.rootKey = root
  receivers : own.receivers = [⟨signed.publicKey, (deriveRoot secrets).2⟩]
  abides : own.Abides t .initiator
  pending : own.pending = some t.pending
  minds : (o.seat .initiator).Minds t .initiator own
  own : ∀ side, t.own side = (o.device side).stores.own
  identity : t.identity .initiator = o.initiator.stores.identity.keyPair.publicKey
  answer : t.answer =
      answered o.responder.stores signed secrets (t.identity .initiator) t.pending.baseKey
    (t.own .initiator).2
  answers : ∀ p s, PreKeyMessage.Under t p → s.own = t.own .responder →
      s.KeepsFor o.responder.stores (.preKey p) →
    Engine.respond s p = .ok t.answer

/-- Working on the bundle leaves the initiator who it is. -/
theorem Fresh.own_started {o : Opening} (h : o.Fresh) :
    o.started.stores.own = o.initiator.stores.own := by
  obtain ⟨-, -, base, sending, e₁, e₂, agreed, -, -, -, hstarted⟩ :=
    Engine.processBundle_ok.mp h.started
  rw [hstarted, Stores.own_committed]

/-- The initiator trusts the identity in the bundle from then on. -/
theorem Fresh.trusts_bundle {o : Opening} (h : o.Fresh) :
    o.started.stores.isTrusted (o.peer .initiator) o.bundle.identityKey = true := by
  obtain ⟨-, -, base, sending, e₁, e₂, agreed, -, -, -, hstarted⟩ :=
    Engine.processBundle_ok.mp h.started
  rw [hstarted, Stores.isTrusted_committed_self]

/-- The initiator has stored what it derives from the bundle, and nothing else. -/
theorem Fresh.stored {o : Opening} (h : o.Fresh) :
    ∃ base sending agreed, base.Genuine ∧ sending.Genuine ∧
      (Engine.initiator o.initiator.stores o.bundle base).state sending = .ok agreed ∧
      o.started.stores.loadSession (o.peer .initiator) =
        ⟨some (Engine.started o.initiator.stores o.bundle base agreed), []⟩ := by
  obtain ⟨-, -, base, sending, e₁, e₂, agreed, hbase, hsending, hagreed, hstarted⟩ :=
    Engine.processBundle_ok.mp h.started
  refine ⟨base, sending, agreed, genuine_of_draw hbase, genuine_of_draw hsending, hagreed, ?_⟩
  rw [hstarted, Stores.loadSession_committed_self, h.records.1]
  rfl

theorem Fresh.agreed [Suite.Lawful] {o : Opening} (h : o.Fresh) :
    ∃ t own signed sending secrets root chain,
      o.Agreed t own signed sending secrets root chain := by
  obtain ⟨base, sending, agreed, hbase, hsending, hagreed, hrecord⟩ := h.stored
  have hnew : (Engine.started o.initiator.stores o.bundle base agreed).New :=
    Engine.started_new hagreed
  obtain ⟨secrets, root, chain, hsecrets, hchain, rfl⟩ := Initiator.state_ok.mp hagreed
  have hoffers := h.published.offers h.genuine.2 h.read
  obtain ⟨signed, hsigned, hkey, hrespond⟩ :=
    hoffers.respond (h.published.genuine h.genuine.2) h.genuine.1 hbase hsecrets
  obtain ⟨hpair, hid⟩ := Prod.mk.inj h.own_started
  have htrusted := h.trusts_bundle
  rw [hoffers.identity] at htrusted
  let answer := answered o.responder.stores signed secrets
    o.started.stores.identity.keyPair.publicKey base.publicKey
    o.started.stores.identity.registrationId
  refine ⟨o.terms base answer, _, signed, sending, secrets, root, chain, ⟨hsigned, hsending⟩,
    hkey, hkey ▸ hchain, hnew, rfl, rfl, ?_, ⟨?_, ?_, rfl, ?_, .inr ⟨rfl, rfl⟩⟩, rfl,
    ⟨.inl hrecord, htrusted, rfl⟩, fun _ => rfl, ?_, rfl,
    fun p s hunder hs hkeeps => ?_⟩
  · rw [hkey]
    rfl
  · exact congrArg KeyPair.publicKey hpair.symm
  · exact hoffers.identity
  · exact hid.symm
  · exact congrArg KeyPair.publicKey hpair
  · have hidentity : p.identityKey = o.initiator.stores.identity.keyPair.publicKey :=
      hunder.identityKey.trans (congrArg KeyPair.publicKey hpair)
    have hanswer := hrespond p hunder.preKeyId hunder.signedPreKeyId hunder.baseKey hidentity
    rw [hunder.identityKey, hunder.baseKey, hunder.registrationId] at hanswer
    exact (respond_congr hs hkeeps).trans hanswer

section Agreed

variable {o : Opening} {t : Terms} {own : State} {signed sending : KeyPair}
  {secrets : List (Octets 32)} {root : RootKey} {chain : ChainKey}

theorem Agreed.stored (h : o.Agreed t own signed sending secrets root chain) :
    o.started.stores.loadSession (o.peer .initiator) = ⟨some own, []⟩ := by
  rcases h.minds.record with hrecord | ⟨-, hside, -⟩
  · exact hrecord
  · cases hside

/-- The initiator's seat is on the second rung. -/
theorem Agreed.initiator (h : o.Agreed t own signed sending secrets root chain) :
    (o.seat .initiator).Sound t
      (firstRungs signed sending secrets root chain) 1 .initiator own [] := by
  have hmade : (o.seat .initiator).ratchetKeys = [sending.publicKey] := by
    have hkey : own.senderRatchetKey = sending.publicKey := by rw [State.senderRatchetKey, h.sender]
    rw [← hkey]
    show (o.started.states (o.peer .initiator)).map State.senderRatchetKey = _
    rw [Device.states, h.stored]
    rfl
  have hheld : (o.seat .initiator).held = [signed.publicKey] := by
    rw [h.key]
    rfl
  have hstands := stands_initiator h.new h.sender h.rootKey h.receivers
  exact .opening h.new hstands h.abides h.minds (climbed_initiator hheld hmade) rfl rfl []

/-- The responder's answer keeps to the terms. -/
theorem abides_answered {s : Stores} (hown : t.own .responder = s.own) :
    (answered s signed secrets (t.identity .initiator) t.pending.baseKey
      (t.own .initiator).2).Abides t .responder := by
  have hpair : (t.own .responder).1 = s.identity.keyPair := congrArg Prod.fst hown
  have hid : (t.own .responder).2 = s.identity.registrationId := congrArg Prod.snd hown
  exact ⟨(congrArg KeyPair.publicKey hpair).symm, rfl, rfl, hid.symm, .inl rfl⟩

/-- The responder's seat is on the first rung, with its answer in mind. -/
theorem Agreed.responder (h : o.Agreed t own signed sending secrets root chain) (hfresh : o.Fresh) :
    (o.seat .responder).Sound t
      (firstRungs signed sending secrets root chain) 0 .responder t.answer [] := by
  have hown := h.own .responder
  have habides : t.answer.Abides t .responder := by
    rw [h.answer]
    exact abides_answered hown
  have hnew : t.answer.New := by
    rw [h.answer]
    exact ⟨rfl, rfl, .inl rfl⟩
  have hnone : t.answer.receivers = [] := by
    rw [h.answer]
    rfl
  have hstands : t.answer.Stands (firstRungs signed sending secrets root chain) 0 := by
    refine stands_responder hnew ?_ ?_ hnone <;> rw [h.answer] <;> rfl
  have hminds : (o.seat .responder).Minds t .responder t.answer := by
    refine ⟨.inr ⟨hfresh.records.2, rfl, rfl, hnone⟩, ?_, hown.symm⟩
    rw [show Side.responder.other = .initiator from rfl, h.identity]
    exact hfresh.trusted
  have hmade : (o.seat .responder).ratchetKeys = [signed.publicKey] := by
    rw [h.key]
    rfl
  exact .opening hnew hstands habides hminds (climbed_responder rfl hmade) rfl rfl []

end Agreed

/-- A conversation opens with both parties on the ladder. -/
theorem Fresh.sound [Suite.Lawful] {o : Opening} (h : o.Fresh) :
    ∃ t rungs level mind, o.conversation.Sound t rungs level mind := by
  obtain ⟨t, own, signed, sending, secrets, root, chain, ha⟩ := h.agreed
  refine ⟨t, firstRungs signed sending secrets root chain, Side.turn,
    fun side => match side with | .initiator => own | .responder => t.answer, ?_⟩
  refine ⟨ladder_firstRungs ha.genuine.1 ha.genuine.2 ha.sends, ?_, ?_, ?_, ?_, ?_, ha.answers⟩
  · rintro (_ | _) <;> rfl
  · rintro (_ | _)
    · exact Nat.lt_succ_self 1
    · exact Nat.succ_pos 1
  · rintro (_ | _)
    · exact Nat.le_succ 2
    · exact Nat.le_refl 2
  · rintro (_ | _)
    · exact ha.initiator
    · exact ha.responder h
  · refine fun _ => ⟨ha.pending, rfl, fun m plain hm => ?_⟩
    cases hm

end Opening

end DoubleRatchet
