import DoubleRatchet.Proofs.Session.Coherence
import DoubleRatchet.Proofs.Suite
import DoubleRatchet.Session.Agreement

/-!
# States that are newly set up

The initiator starts with one receiver chain, the responder with none; neither
has keys cached, and both speak the current version. From genuine pairs both
derive the same secrets.
-/
namespace DoubleRatchet

/-- A new state holds at most one chain, of index zero, and no cached keys. -/
structure State.New (s : State) : Prop where
  version : s.version = currentVersion
  skipped : s.skipped = {}
  receivers : s.receivers = [] ∨ ∃ ch, s.receivers = [ch] ∧ ch.chain.index = 0

theorem State.New.coherent {s : State} (h : s.New) : s.Coherent := by
  refine ⟨?_, ?_, fun e he => ?_⟩
  · rcases h.receivers with hr | ⟨ch, hr, -⟩ <;> simp [hr]
  · simp [SkippedKeys.Distinct, h.skipped]
  · simp [h.skipped] at he

variable [Suite]

theorem PrivateKey.agree_ok {key : PrivateKey} {their : PublicKey} {secret : Octets 32} :
    key.agree their = .ok secret ↔ Suite.agree key their = some secret := by
  unfold agree
  cases Suite.agree key their <;> simp

/-- The two halves of a pair belong together. -/
def KeyPair.Genuine (pair : KeyPair) : Prop := pair.publicKey = Suite.publicKey pair.privateKey

theorem genuine_keyPair (e : Entropy) : (Draw.keyPair e).1.Genuine := rfl

/-- A pair that was drawn is genuine. -/
theorem genuine_of_draw {pair : KeyPair} {e e' : Entropy} (h : Draw.keyPair e = (pair, e')) :
    pair.Genuine := by
  have hgenuine := genuine_keyPair e
  rw [h] at hgenuine
  exact hgenuine

/-- Two genuine pairs agree on one secret, whichever side computes it. -/
theorem KeyPair.Genuine.agree [Suite.Lawful] {a b : KeyPair} (ha : a.Genuine) (hb : b.Genuine) :
    ∃ secret, a.privateKey.agree b.publicKey = .ok secret ∧
      b.privateKey.agree a.publicKey = .ok secret := by
  obtain ⟨secret, hsecret, hsecret'⟩ := Suite.Lawful.agree a.privateKey b.privateKey
  rw [KeyPair.Genuine] at ha hb
  rw [ha, hb]
  exact ⟨secret, PrivateKey.agree_ok.mpr hsecret, PrivateKey.agree_ok.mpr hsecret'⟩

/-- Agreement gives the same from either side, be it a secret or nothing. -/
def Suite.Commutes : Prop :=
  ∀ a b, Suite.agree a (Suite.publicKey b) = Suite.agree b (Suite.publicKey a)

theorem Suite.Lawful.commutes [Suite.Lawful] : Suite.Commutes := by
  intro a b
  obtain ⟨secret, hsecret, hsecret'⟩ := Suite.Lawful.agree a b
  rw [hsecret, hsecret']

theorem KeyPair.Genuine.agree_comm {a b : KeyPair} (ha : a.Genuine) (hb : b.Genuine)
    (commutes : Suite.Commutes) :
    a.privateKey.agree b.publicKey = b.privateKey.agree a.publicKey := by
  rw [KeyPair.Genuine] at ha hb
  rw [ha, hb, PrivateKey.agree, PrivateKey.agree, commutes]

/-- A ratchet step between two pairs is the same from either side. -/
theorem KeyPair.Genuine.createChain_comm {a b : KeyPair} (ha : a.Genuine) (hb : b.Genuine)
    (commutes : Suite.Commutes) (root : RootKey) :
    root.createChain a.publicKey b.privateKey = root.createChain b.publicKey a.privateKey := by
  unfold RootKey.createChain
  rw [ha.agree_comm hb commutes]

/-- The outputs of the agreements on the initiator's side. -/
def Initiator.secrets (p : Initiator) : Except KeyFault (List (Octets 32)) := do
  let first ← p.identity.privateKey.agree p.theirSignedPreKey
  let second ← p.base.privateKey.agree p.theirIdentity
  let third ← p.base.privateKey.agree p.theirSignedPreKey
  let fourth ← p.theirOneTimePreKey.mapM p.base.privateKey.agree
  return [first, second, third] ++ fourth.toList

/-- The outputs of the agreements on the responder's side. -/
def Responder.secrets (p : Responder) : Except KeyFault (List (Octets 32)) := do
  let first ← p.signedPreKey.privateKey.agree p.theirIdentity
  let second ← p.identity.privateKey.agree p.theirBaseKey
  let third ← p.signedPreKey.privateKey.agree p.theirBaseKey
  let fourth ← p.oneTimePreKey.mapM (·.privateKey.agree p.theirBaseKey)
  return [first, second, third] ++ fourth.toList

section Secrets

variable {identity base their signed : KeyPair} {oneTime : Option KeyPair}

/-- Both sides put the same agreements in the same order, if all their pairs are genuine. -/
theorem secrets_comm (commutes : Suite.Commutes) (hidentity : identity.Genuine)
    (hbase : base.Genuine) (htheir : their.Genuine) (hsigned : signed.Genuine)
    (honeTime : ∀ pair ∈ oneTime, pair.Genuine) (theirRatchetKey : PublicKey) (ratchet : KeyPair) :
    Initiator.secrets ⟨identity, base, their.publicKey, signed.publicKey,
      oneTime.map KeyPair.publicKey,
        theirRatchetKey⟩ =
      Responder.secrets ⟨their, signed, oneTime, ratchet, identity.publicKey, base.publicKey⟩ := by
  have hfourth : (oneTime.map KeyPair.publicKey).mapM base.privateKey.agree =
      oneTime.mapM (·.privateKey.agree base.publicKey) := by
    cases oneTime with
    | none => rfl
    | some pair =>
      have hpair := hbase.agree_comm (honeTime pair rfl) commutes
      simp only [Option.map_some, Option.mapM_some, hpair]
  unfold Initiator.secrets Responder.secrets
  simp only [hidentity.agree_comm hsigned commutes, hbase.agree_comm htheir commutes,
    hbase.agree_comm hsigned commutes, hfourth]

/-- With laws that make every agreement succeed, both sides come to the same secrets. -/
theorem secrets_agree [Suite.Lawful] (hidentity : identity.Genuine) (hbase : base.Genuine)
    (htheir : their.Genuine) (hsigned : signed.Genuine) (honeTime : ∀ pair ∈ oneTime, pair.Genuine)
    (theirRatchetKey : PublicKey) (ratchet : KeyPair) :
    ∃ secrets, Initiator.secrets ⟨identity, base, their.publicKey, signed.publicKey,
      oneTime.map KeyPair.publicKey,
        theirRatchetKey⟩ = .ok secrets ∧
      Responder.secrets ⟨their, signed, oneTime, ratchet, identity.publicKey, base.publicKey⟩ =
        .ok secrets := by
  rw [← secrets_comm Suite.Lawful.commutes hidentity hbase htheir hsigned honeTime
    theirRatchetKey ratchet]
  simp only [and_self]
  obtain ⟨first, h₁, -⟩ := hidentity.agree hsigned
  obtain ⟨second, h₂, -⟩ := hbase.agree htheir
  obtain ⟨third, h₃, -⟩ := hbase.agree hsigned
  unfold Initiator.secrets
  simp only [h₁, h₂, h₃]
  cases oneTime with
  | none => exact ⟨_, rfl⟩
  | some pair =>
    obtain ⟨fourth, h₄, -⟩ := hbase.agree (honeTime pair rfl)
    simp only [Option.map_some, Option.mapM_some, h₄]
    exact ⟨_, rfl⟩

end Secrets

theorem Initiator.state_ok {p : Initiator} {sending : KeyPair} {s : State} :
    p.state sending = .ok s ↔ ∃ secrets root chain, p.secrets = .ok secrets ∧
      (deriveRoot secrets).1.createChain p.theirRatchetKey sending.privateKey = .ok (root, chain) ∧
      s = {
        version := currentVersion
        localIdentity := p.identity.publicKey
        remoteIdentity := p.theirIdentity
        rootKey := root
        sender := ⟨sending, chain⟩
        receivers := [⟨p.theirRatchetKey, (deriveRoot secrets).2⟩]
        baseKey := p.base.publicKey } := by
  unfold state secrets
  simp only [bind_ok, pure, Except.pure, Except.ok.injEq]
  constructor
  · rintro ⟨first, h₁, second, h₂, third, h₃, fourth, h₄, ⟨root, chain⟩, h₅, rfl⟩
    exact ⟨_, root, chain, ⟨first, h₁, second, h₂, third, h₃, fourth, h₄, rfl⟩, h₅, rfl⟩
  · rintro ⟨secrets, root, chain, ⟨first, h₁, second, h₂, third, h₃, fourth, h₄, rfl⟩, h₅, rfl⟩
    exact ⟨first, h₁, second, h₂, third, h₃, fourth, h₄, ⟨root, chain⟩, h₅, rfl⟩

theorem Responder.state_ok {p : Responder} {s : State} :
    p.state = .ok s ↔ ∃ secrets, p.secrets = .ok secrets ∧ s = {
        version := currentVersion
        localIdentity := p.identity.publicKey
        remoteIdentity := p.theirIdentity
        rootKey := (deriveRoot secrets).1
        sender := ⟨p.ratchet, (deriveRoot secrets).2⟩
        baseKey := p.theirBaseKey } := by
  unfold state secrets
  simp only [bind_ok, pure, Except.pure, Except.ok.injEq]
  constructor
  · rintro ⟨first, h₁, second, h₂, third, h₃, fourth, h₄, rfl⟩
    exact ⟨_, ⟨first, h₁, second, h₂, third, h₃, fourth, h₄, rfl⟩, rfl⟩
  · rintro ⟨secrets, ⟨first, h₁, second, h₂, third, h₃, fourth, h₄, rfl⟩, rfl⟩
    exact ⟨first, h₁, second, h₂, third, h₃, fourth, h₄, rfl⟩

theorem Initiator.new {p : Initiator} {sending : KeyPair} {s : State}
    (h : p.state sending = .ok s) : s.New := by
  obtain ⟨secrets, root, chain, -, -, rfl⟩ := state_ok.mp h
  exact ⟨rfl, rfl, .inr ⟨_, rfl, rfl⟩⟩

theorem Responder.new {p : Responder} {s : State} (h : p.state = .ok s) : s.New := by
  obtain ⟨secrets, -, rfl⟩ := state_ok.mp h
  exact ⟨rfl, rfl, .inl rfl⟩

/-- The two states of a new session fit: they name it alike, the initiator
receives on the chain on which the responder sends, and the step that the
responder makes to the initiator's ratchet key leads to the root and to the
chain that the initiator sends on. -/
theorem session_agreement {identity base their signed sending : KeyPair} {oneTime : Option KeyPair}
    (commutes : Suite.Commutes) (hidentity : identity.Genuine) (hbase : base.Genuine)
    (htheir : their.Genuine) (hsigned : signed.Genuine) (honeTime : ∀ pair ∈ oneTime, pair.Genuine)
    (hsending : sending.Genuine) {alice bob : State}
    (halice : Initiator.state ⟨identity, base, their.publicKey, signed.publicKey,
      oneTime.map KeyPair.publicKey, signed.publicKey⟩ sending = .ok alice)
    (hbob : Responder.state ⟨their, signed, oneTime, signed, identity.publicKey,
      base.publicKey⟩ = .ok bob) :
    alice.baseKey = bob.baseKey ∧ alice.localIdentity = bob.remoteIdentity ∧
      alice.remoteIdentity = bob.localIdentity ∧
      alice.receivers = [⟨signed.publicKey, bob.sender.chain⟩] ∧
      bob.rootKey.createChain alice.senderRatchetKey signed.privateKey =
        .ok (alice.rootKey, alice.sender.chain) := by
  obtain ⟨secrets, root, chain, hsecrets, hstep, rfl⟩ := Initiator.state_ok.mp halice
  obtain ⟨secrets', hsecrets', rfl⟩ := Responder.state_ok.mp hbob
  have hsame : secrets = secrets' := by
    rw [secrets_comm commutes hidentity hbase htheir hsigned honeTime _ signed,
      hsecrets'] at hsecrets
    exact (Except.ok.inj hsecrets).symm
  subst hsame
  refine ⟨rfl, rfl, rfl, rfl, ?_⟩
  rw [State.senderRatchetKey, hsending.createChain_comm hsigned commutes]
  exact hstep

namespace Small

/-- The pair of a private key of equal bytes. -/
def pair (b : UInt8) : KeyPair := @KeyPair.ofPrivate suite ⟨.fill 32 b⟩

end Small

omit [Suite] in
/-- The two sides with a one-time key between them. -/
theorem session_agreement_pairs : ∃ alice bob,
    @Initiator.state Small.suite ⟨Small.pair 1, Small.pair 2, (Small.pair 3).publicKey,
      (Small.pair 4).publicKey, some (Small.pair 5).publicKey,
      (Small.pair 4).publicKey⟩ (Small.pair 6) = .ok alice ∧
    @Responder.state Small.suite ⟨Small.pair 3, Small.pair 4, some (Small.pair 5), Small.pair 4,
      (Small.pair 1).publicKey, (Small.pair 2).publicKey⟩ = .ok bob ∧
    alice.receivers = [⟨(Small.pair 4).publicKey, bob.sender.chain⟩] ∧
    @RootKey.createChain Small.suite bob.rootKey alice.senderRatchetKey (Small.pair 4).privateKey =
      .ok (alice.rootKey, alice.sender.chain) := by
  let := Small.suite
  have hgenuine : ∀ b, (Small.pair b).Genuine := fun _ => rfl
  have honeTime : ∀ pair ∈ some (Small.pair 5), pair.Genuine :=
    fun _ hpair => Option.some_inj.mp hpair ▸ hgenuine 5
  obtain ⟨alice, halice⟩ :
      ∃ alice, Initiator.state ⟨Small.pair 1, Small.pair 2, (Small.pair 3).publicKey,
      (Small.pair 4).publicKey, some (Small.pair 5).publicKey,
      (Small.pair 4).publicKey⟩ (Small.pair 6) =
        .ok alice := ⟨_, rfl⟩
  obtain ⟨bob, hbob⟩ :
      ∃ bob, Responder.state ⟨Small.pair 3, Small.pair 4, some (Small.pair 5), Small.pair 4,
      (Small.pair 1).publicKey, (Small.pair 2).publicKey⟩ = .ok bob := ⟨_, rfl⟩
  obtain ⟨-, -, -, hreceives, hstep⟩ :=
    session_agreement (@Suite.Lawful.commutes _ Small.lawful) (hgenuine 1)
    (hgenuine 2) (hgenuine 3) (hgenuine 4) honeTime (hgenuine 6) halice hbob
  exact ⟨alice, bob, halice, hbob, hreceives, hstep⟩

end DoubleRatchet
