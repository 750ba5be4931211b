import DoubleRatchet.Proofs.Conversation.Opening
import DoubleRatchet.Proofs.Simulation.Batches
import DoubleRatchet.Proofs.Wire.Bundle

/-!
# Two parties meet

A new party publishes a bundle, the bundle comes back from its bytes, and
another new party starts a session from it: the signature verifies and all
agreements succeed. Then it is the turn of the second one to write.
-/
namespace DoubleRatchet

theorem PublicKey.length_wire_lt (key : PublicKey) : key.wire.toList.length < UInt64.size := by
  rw [key.wire.length_eq]
  decide

variable [Suite]

namespace PreKeys

/-- One-time pre-keys are made as long as there are ids for them. -/
theorem exists_generate {id count : Nat} (h : id + count ≤ UInt32.size) (d : Device) :
    ∃ keys d', outcome (generate id count) d = (.ok keys, d') ∧ keys.length = count := by
  refine ⟨_, _, generate_ok.mpr ⟨.inr h, rfl, rfl⟩, ?_⟩
  rw [List.length_map, length_batch]
  omega

omit [Suite] in
theorem fits_bundle {s : Stores} {deviceId : UInt32} {signed : SignedPreKeyRecord}
    {keys : List PublishedPreKey} (hsignature : signed.signature.length < UInt64.size)
    (hlength : keys.length < UInt64.size) (hkeys : ∀ k ∈ keys, ∃ r, k = publish r) :
    (bundle s deviceId signed keys).Fits := by
  refine ⟨PublicKey.length_wire_lt _, PublicKey.length_wire_lt _, hsignature,
    hlength, fun k hk => ?_⟩
  obtain ⟨r, rfl⟩ := hkeys k hk
  exact PublicKey.length_wire_lt _

/-- A device without a signed pre-key makes a bundle that can be written and
read, with a new signed pre-key and a signature that verifies. -/
theorem exists_generateBundle {d : Device} (hgenuine : d.stores.identity.keyPair.Genuine)
    (hsigns : d.stores.identity.keyPair.privateKey.Signs)
    (hnone : d.stores.signedPreKeys.maxKey? = none) (deviceId start : UInt32) (count : Nat)
    (hcount : start.toNat + count ≤ UInt32.size) (now : UInt64) :
    ∃ p d' b, outcome (generateBundle deviceId start count now) d = (.ok p, d') ∧ p.Fits ∧
      Bundle.ofPublished p none = .ok b ∧ b.hasValidSignature = true ∧
      b.signedPreKey = (Draw.keyPair (d.entropy.after count)).1.publicKey := by
  obtain ⟨keys, d₁, hkeys, hlength⟩ := exists_generate hcount d
  have hidentity : d₁.stores.identity = d.stores.identity := by rw [stores_generate hkeys]
  have hid : nextSignedId d.stores = .ok 1 := by rw [nextSignedId, hnone]
  have hmade : outcome (generateBundle deviceId start count now) d = (.ok _, _) :=
    generateBundle_ok.mpr ⟨keys, d₁, 1, hkeys, hid, rfl, rfl⟩
  have hpublished : ∀ k ∈ keys, ∃ r, k = publish r := fun k hk =>
    (stored_of_generate hkeys k hk).imp fun _ h => h.2
  have hnamed : ∀ id ∈ (none : Option UInt32), ∃ k ∈ keys, k.id = id :=
    fun id hid => absurd hid (Option.not_mem_none id)
  obtain ⟨preKey, hread⟩ := ofPublished_bundle _ deviceId _ hpublished hnamed
  refine ⟨_, _, _, hmade, fits_bundle ?_ ?_ hpublished, hread, ?_, ?_⟩
  · have hsignature :
        (generateSigned 1 d.stores.identity.keyPair now d₁.entropy).1.signature.length = 64 :=
      Octets.length_eq _
    rw [hsignature]
    decide
  · rw [hlength]
    exact Nat.lt_of_le_of_lt (Nat.le_of_add_left_le hcount) (by decide)
  · show d₁.stores.identity.keyPair.publicKey.verifies _ _ = true
    rw [hidentity, hgenuine]
    exact hsigns.verifies _ _
  · rw [← entropy_of_generate hkeys]
    rfl

end PreKeys

/-- From a bundle that is offered a session can be started, if its signature
verifies: two pairs are drawn for it, and the second one is sent on. -/
theorem Stores.Offers.starts [Suite.Lawful] {s : Stores} {b : Bundle} (h : s.Offers b)
    (hs : s.Genuine) {d : Device} (hd : d.stores.Genuine) (peer : Address)
    (htrusted : d.stores.isTrusted peer b.identityKey = true) (hvalid : b.hasValidSignature = true)
    (c : Config) :
    ∃ d' own, outcome (Engine.processBundle c peer b) d = (.ok (), d') ∧
      d'.entropy = d.entropy.after 2 ∧
      d'.stores.loadSession peer = (d.stores.loadSession peer).promote own c.maxArchivedStates ∧
      own.sender.keyPair = (Draw.keyPair (d.entropy.after 1)).1 := by
  obtain ⟨signed, oneTime, -, -, hsigned, hkey, honeTime, hkeys⟩ := h.load hs
  have hbase := genuine_keyPair d.entropy
  have hsending := genuine_keyPair (d.entropy.after 1)
  obtain ⟨secrets, hsecrets, -⟩ :=
    secrets_agree hd.identity hbase hs.identity hsigned honeTime b.signedPreKey signed.keyPair
  obtain ⟨root, chain, hchain, -⟩ := createChain_agrees hsigned hsending (deriveRoot secrets).1
  rw [hkey, hkeys, ← h.identity] at hsecrets
  rw [hkey] at hchain
  have hagreed := Initiator.state_ok.mpr ⟨secrets, root, chain, hsecrets, hchain, rfl⟩
  refine ⟨_, _,
    Engine.processBundle_ok.mpr ⟨htrusted, hvalid, _, _, _, _, _, rfl, rfl, hagreed, rfl⟩,
    rfl, ?_, (Engine.started_sends hagreed).1⟩
  exact Stores.loadSession_committed_self _ _ _ _

/-- The key pairs that fit between two places of a stream. -/
def Entropy.between (e e' : Entropy) : List KeyPair := e.pairs ((e'.used - e.used) / 32)

@[simp] theorem Entropy.between_after (e : Entropy) (n : Nat) :
    e.between (e.after n) = e.pairs n := by
  rw [between, after, Nat.add_sub_cancel_left, Nat.mul_div_cancel_left n (by decide)]

namespace Simulation

omit [Suite] in
/-- What is drawn once an operation has succeeded, and nothing if it has not. -/
def following {α : Type} (x : Run α) (f : α → Entropy → List KeyPair)
    (e : Entropy) : List KeyPair :=
  match outcome x e with
  | (.ok a, e') => f a e'
  | (.error _, _) => []

omit [Suite] in
theorem following_ok {α : Type} {x : Run α} {e e' : Entropy} {a : α} (h : outcome x e = (.ok a, e'))
    (f : α → Entropy → List KeyPair) : following x f e = f a e' := by
  rw [following, h]

/-- The key pairs that are drawn for a meeting: two identities, the pre-keys of
the bundle, and the pairs of the session. -/
def opened (c : Config) (now : UInt64) (e : Entropy) : List KeyPair :=
  let (alice, e₁) := Party.new "alice" e
  let (bob, e₂) := Party.new "bob" e₁
  [alice.stores.identity.keyPair, bob.stores.identity.keyPair] ++
    (Operation.generate 1 1 10 now).generated c ⟨bob.stores, e₂⟩ ++
    following (bob.must (PreKeys.generateBundle 1 1 10 now))
      (fun _ e₃ => e₃.between (outcome (meet c now) e).2) e₂

section Opening

variable {t : Terms} {o : Opening} {own : State} {signed sending : KeyPair}
  {secrets : List (Octets 32)} {root : RootKey} {chain : ChainKey}

/-- The responder opens any first message with its answer. -/
theorem awaits_answer (h : o.Agreed t own signed sending secrets root chain) (hfresh : o.Fresh)
    {q : Party} (hq : q.stores = o.responder.stores) (c : Config) :
    q.Awaits t c .responder (o.peer .responder) true t.answer := by
  have hsound := h.responder hfresh
  refine ⟨fun m hwrapped hfirst => ?_, ?_, hsound.abides⟩
  · obtain ⟨p, rfl⟩ := hfirst rfl
    obtain ⟨-, hunder⟩ := hwrapped p rfl
    have htrusted := hsound.minds.trusted
    rw [show Side.responder.other = .initiator from rfl, ← hunder.identityKey] at htrusted
    have hanswer := h.answers p q.stores hunder ?_ ?_
    · refine ⟨p.preKeyId, Engine.prepare_ok.mpr ⟨?_, .inr ⟨?_, t.answer, hanswer, ?_, rfl⟩⟩⟩
      · rw [hq]
        exact htrusted
      · rw [hq, hfresh.records.2]
        rfl
      · rw [hq, hfresh.records.2]
        rfl
    · rw [hq, h.own]
      rfl
    · rw [hq]
      exact ⟨rfl, rfl⟩
  · rw [hq]
    exact hsound.minds.trusted

/-- After the opening it is the initiator's turn. -/
theorem facing_opening [Suite.Lawful] (h : o.Agreed t own signed sending secrets root chain)
    (hfresh : o.Fresh) {p q : Party} (hp : p.stores = o.started.stores)
    (hq : q.stores = o.responder.stores) (hinitiator : o.peer .initiator = q.address)
    (hresponder : o.peer .responder = p.address)
    (hdistinct : ((firstRungs signed sending secrets root chain).map Rung.key).Nodup)
    (hshort : p.name.utf8ByteSize ≤ 16 ∧ q.name.utf8ByteSize ≤ 16) (c : Config) :
    Facing t c .initiator (firstRungs signed sending secrets root chain) 0 p q own t.answer := by
  have hsound := h.initiator
  have hstart : own.sender.chain.index = 0 := by
    rw [h.sender]
    exact RootKey.createChain_index h.sends
  have hclear : own.skipped.entries = [] ∧ t.answer.skipped.entries = [] := by
    rw [h.new.skipped, h.answer]
    exact ⟨rfl, rfl⟩
  have hladder := ladder_firstRungs h.genuine.1 h.genuine.2 h.sends
  refine ⟨⟨hladder, hdistinct, rfl, hsound.stands, (h.responder hfresh).stands, hstart, hclear⟩,
    ⟨?_, ?_, hsound.abides⟩, ?_, hshort⟩
  · rw [hp, ← hinitiator]
    exact h.stored
  · rw [hp, ← hinitiator]
    exact hsound.minds.trusted
  · rw [h.pending, ← hresponder]
    exact awaits_answer h hfresh hq c

end Opening

theorem new_eq (name : String) (e : Entropy) :
    ∃ id e', Party.new name e = (⟨name, Stores.create (Draw.keyPair e).1 id⟩, e') := ⟨_, _, rfl⟩

section Steps

variable {c : Config} {now : UInt64} {a b : Stores} {e e₁ e₂ : Entropy} {p : PublishedBundle}
  {bundle : Bundle} {d₁ d₂ : Device} (halice : Party.new "alice" e = (⟨"alice", a⟩, e₁))
  (hbob : Party.new "bob" e₁ = (⟨"bob", b⟩, e₂))
  (hmade : outcome (PreKeys.generateBundle 1 1 10 now) ⟨b, e₂⟩ = (.ok p, d₁)) (hfits : p.Fits)
  (hread : Bundle.ofPublished p none = .ok bundle)
  (hstarts : outcome (Engine.processBundle c ⟨"bob", 1⟩ bundle) ⟨a, d₁.entropy⟩ = (.ok (), d₂))

include halice hbob hmade hfits hread hstarts

/-- The steps of a meeting, one after the other. -/
theorem meet_eq :
    outcome (meet c now) e = (.ok (⟨"alice", d₂.stores⟩, ⟨"bob", d₁.stores⟩), d₂.entropy) := by
  have hestablish : outcome (Engine.establish c ⟨"bob", 1⟩ p) ⟨a, d₁.entropy⟩ = (.ok (), d₂) := by
    rw [Engine.establish, outcome_bind, Action.outcome_ofExcept, hread]
    exact hstarts
  have hfetched :
      outcome (ofWire (PublishedBundle.decode p.encode)) d₁.entropy = (.ok p, d₁.entropy) := by
    rw [PublishedBundle.decode_encode hfits]
    rfl
  unfold meet
  rw [outcome_bind, outcome_liftM, halice]
  simp only
  rw [outcome_bind, outcome_liftM, hbob]
  simp only
  rw [outcome_bind_of_ok (outcome_must (p := ⟨"bob", b⟩) hmade), outcome_bind_of_ok hfetched]
  exact outcome_bind_of_ok (outcome_must (p := ⟨"alice", a⟩) hestablish) _

theorem opened_eq (hentropy : d₂.entropy = d₁.entropy.after 2) :
    opened c now e = [a.identity.keyPair, b.identity.keyPair] ++ e₂.pairs 11 ++
      d₁.entropy.pairs 2 := by
  have hmeet := meet_eq halice hbob hmade hfits hread hstarts
  have hafter := following_ok (outcome_must (p := ⟨"bob", b⟩) hmade) fun _ e₃ =>
    e₃.between (outcome (meet c now) e).2
  unfold opened
  rw [halice]
  simp only
  rw [hbob]
  simp only
  rw [hafter, hmeet, hentropy, Entropy.between_after, generated_generate hmade]

end Steps

/-- A meeting is an opening, and the keys that its parties send on are among those drawn. -/
structure Opens (c : Config) (now : UInt64) (e : Entropy) (o : Opening) : Prop where
  fresh : o.Fresh
  met : outcome (meet c now) e =
    (.ok (⟨"alice", o.started.stores⟩, ⟨"bob", o.responder.stores⟩), o.started.entropy)
  initiator : o.peer .initiator = ⟨"bob", 1⟩
  responder : o.peer .responder = ⟨"alice", 1⟩
  drawn : ∃ own, o.started.stores.loadSession (o.peer .initiator) = ⟨some own, []⟩ ∧
    [o.bundle.signedPreKey, own.senderRatchetKey].Sublist ((opened c now e).map KeyPair.publicKey)

/-- Every meeting is one: nothing in it fails. -/
theorem exists_opens [Suite.Lawful] (hsigns : ∀ bytes, (PrivateKey.clamp bytes).Signs) (c : Config)
    (now : UInt64) (e : Entropy) : ∃ o, Opens c now e o := by
  obtain ⟨aliceId, e₁, halice⟩ := new_eq "alice" e
  obtain ⟨bobId, e₂, hbob⟩ := new_eq "bob" e₁
  let a := Stores.create (Draw.keyPair e).1 aliceId
  let b := Stores.create (Draw.keyPair e₁).1 bobId
  have ha : a.Genuine := genuine_create (genuine_keyPair e) aliceId
  have hb : b.Genuine := genuine_create (genuine_keyPair e₁) bobId
  obtain ⟨p, d₁, bundle, hmade, hfits, hread, hvalid, hkey⟩ :=
    PreKeys.exists_generateBundle (d := ⟨b, e₂⟩)
    hb.identity (hsigns _) rfl 1 1 10 (by decide) now
  have hpublished : Published ⟨b, e₂⟩ p d₁ := .generated hmade
  obtain ⟨d₂, own, hstarts, hentropy, hrecord, hsends⟩ := (hpublished.offers hb hread).starts
    (hpublished.genuine hb) (d := ⟨a, d₁.entropy⟩) ha ⟨"bob", 1⟩ rfl hvalid c
  have hsessions :=
    PreKeys.keeps_generateBundle Stores.sessions (fun _ _ _ => rfl) (fun _ _ _ => rfl) 1 1 10 now
    ⟨b, e₂⟩
  have hidentity :=
    PreKeys.keeps_generateBundle Stores.identity (fun _ _ _ => rfl) (fun _ _ _ => rfl) 1 1 10 now
    ⟨b, e₂⟩
  simp only [hmade] at hsessions hidentity
  have hrecords : d₁.stores.loadSession ⟨"alice", 1⟩ = {} := by
    rw [Stores.loadSession, hsessions]
    rfl
  have htrusted : d₁.stores.isTrusted ⟨"alice", 1⟩ a.identity.keyPair.publicKey = true := by
    rw [Stores.isTrusted, hidentity]
    rfl
  have hsigned : bundle.signedPreKey ∈ (e₂.pairs 11).map KeyPair.publicKey := by
    rw [hkey]
    exact List.mem_map_of_mem (e₂.last_mem_pairs 10)
  have hsending : own.senderRatchetKey ∈ (d₁.entropy.pairs 2).map KeyPair.publicKey := by
    rw [State.senderRatchetKey, hsends]
    exact List.mem_map_of_mem (d₁.entropy.last_mem_pairs 1)
  let peer (side : Side) : Address := if side = .initiator then ⟨"bob", 1⟩ else ⟨"alice", 1⟩
  refine ⟨⟨⟨b, e₂⟩, d₁, p, none, bundle, ⟨a, d₁.entropy⟩, d₂, peer, fun _ => c⟩,
    ⟨⟨ha, hb⟩, hpublished, hread, hstarts, ⟨rfl, hrecords⟩, htrusted⟩,
    meet_eq halice hbob hmade hfits hread hstarts, rfl, rfl, own, hrecord, ?_⟩
  rw [opened_eq halice hbob hmade hfits hread hstarts hentropy, List.map_append,
    List.map_append, List.append_assoc]
  refine List.Sublist.trans ?_ (List.sublist_append_right _ _)
  exact (List.singleton_sublist.mpr hsigned).append (List.singleton_sublist.mpr hsending)

/-- Two new parties meet, and the first one may write. -/
theorem meet_ok [Suite.Lawful] (hsigns : ∀ bytes, (PrivateKey.clamp bytes).Signs) (c : Config)
    (now : UInt64) (e : Entropy) (hfresh : ((opened c now e).map KeyPair.publicKey).Nodup) :
    ∃ t rungs alice bob s r e', outcome (meet c now) e = (.ok (alice, bob), e') ∧
      (rungs.map Rung.key).Sublist ((opened c now e).map KeyPair.publicKey) ∧
      Facing t c .initiator rungs 0 alice bob s r := by
  obtain ⟨o, h⟩ := exists_opens hsigns c now e
  obtain ⟨t, own, signed, sending, secrets, root, chain, hagreed⟩ := h.fresh.agreed
  obtain ⟨own', hrecord, hsublist⟩ := h.drawn
  have hown : own' = own := by
    rw [hagreed.stored] at hrecord
    simpa using hrecord.symm
  have hkeys : (firstRungs signed sending secrets root chain).map Rung.key =
      [o.bundle.signedPreKey, own'.senderRatchetKey] := by
    rw [hown, State.senderRatchetKey, hagreed.sender, ← hagreed.key]
    rfl
  rw [← hkeys] at hsublist
  have hshort : "alice".utf8ByteSize ≤ 16 ∧ "bob".utf8ByteSize ≤ 16 := by decide
  exact ⟨t, _, _, _, own, t.answer, _, h.met, hsublist,
    facing_opening (p := ⟨"alice", o.started.stores⟩)
      (q := ⟨"bob", o.responder.stores⟩) hagreed h.fresh rfl rfl
      h.initiator h.responder (hsublist.nodup hfresh) hshort c⟩

end Simulation

end DoubleRatchet
