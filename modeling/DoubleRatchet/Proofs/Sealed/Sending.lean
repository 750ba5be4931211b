import DoubleRatchet.Proofs.Curve.Clamping
import DoubleRatchet.Proofs.Sealed.Refusals
import DoubleRatchet.Proofs.Sealed.RoundTrip

/-!
# Sealing that fails

A message that is to be sealed is first written by the session, which advances
and is stored. The envelope then takes two more agreements with the identity of
the recipient. These cannot fail any more: sessions are set up only with
identities that keys agree with, and the one that is sealed for is the one that
the session is with. So what fails, fails before. Main statement: `sealing_atomic`.
-/
namespace DoubleRatchet

/-- Agreement on the curve clamps the private key. -/
theorem Curve.agree_clamp (key : PrivateKey) (their : PublicKey) :
    agree (.clamp key.bytes) their = agree key their := by
  rw [agree, scalar, PrivateKey.clamp_clamp]
  rfl

variable [Suite]

/-- Whether an agreement fails depends on the public key alone: private keys are
clamped for it, and clamped ones all agree with a public key or all fail. -/
class Suite.Uniform : Prop where
  clamps : ∀ key their, Suite.agree (.clamp key.bytes) their = none ↔ Suite.agree key their = none
  clamped : ∀ a b their, Suite.agree (.clamp a) their = none → Suite.agree (.clamp b) their = none

omit [Suite] in
/-- On the curve it is enough to look at clamped keys. -/
theorem Suite.uniform_standard
    (clamped : ∀ a b their, Curve.agree (.clamp a) their = none →
      Curve.agree (.clamp b) their = none) :
    @Suite.Uniform Suite.standard :=
  @Suite.Uniform.mk Suite.standard
    (fun key their => iff_of_eq (congrArg (· = none) (Curve.agree_clamp key their)))
    clamped

/-- Every private key agrees with a public key. -/
def PublicKey.Agrees (their : PublicKey) : Prop :=
  ∀ key : PrivateKey, ∃ secret, key.agree their = .ok secret

/-- If one private key does, all do. -/
theorem PublicKey.agrees_of_agree [Suite.Uniform] {key : PrivateKey} {their : PublicKey}
    {secret : Octets 32} (h : key.agree their = .ok secret) : their.Agrees := by
  intro other
  cases hother : Suite.agree other their with
  | some shared => exact ⟨shared, by rw [PrivateKey.agree, hother]⟩
  | none =>
    have hclamped :=
      Suite.Uniform.clamped _ key.bytes _ ((Suite.Uniform.clamps other their).mpr hother)
    rw [PrivateKey.agree, (Suite.Uniform.clamps key their).mp hclamped] at h
    cases h

/-- A session is only ever with an identity that keys agree with. -/
theorem State.lasting_agrees [Suite.Uniform] (c : Config) :
    State.Lasting c fun s => s.remoteIdentity.Agrees where
  initiator h := by
    obtain ⟨secrets, root, chain, hsecrets, -, rfl⟩ := Initiator.state_ok.mp h
    obtain ⟨first, -, hsecrets⟩ := bind_ok.mp hsecrets
    obtain ⟨second, hsecond, -⟩ := bind_ok.mp hsecrets
    exact PublicKey.agrees_of_agree hsecond
  responder h := by
    obtain ⟨signed, oneTime, agreed, -, -, hagreed, rfl⟩ := Engine.respond_ok.mp h
    obtain ⟨secrets, hsecrets, rfl⟩ := Responder.state_ok.mp hagreed
    obtain ⟨first, hfirst, -⟩ := bind_ok.mp hsecrets
    exact PublicKey.agrees_of_agree hfirst
  writes h hm := by rwa [(State.sameSession_encrypt hm).remoteIdentity]
  reads h hr := by rwa [hr.sameSession.remoteIdentity]

theorem Device.agrees_serve [Suite.Uniform] (keyPair : KeyPair) (registrationId : UInt32)
    (entropy : Entropy) (calls : List Call) :
    ∀ peer, ∀ s ∈ ((Device.new keyPair registrationId entropy).serve calls).states peer,
      s.remoteIdentity.Agrees :=
  Device.serve_induction (P := fun stores => ∀ peer, ∀ s ∈ (stores.loadSession peer).states,
    s.remoteIdentity.Agrees)
    (fun c _ op h => (State.lasting_agrees c).perform h op)
    (fun _ _ hs => absurd hs List.not_mem_nil) calls

namespace Seal

/-- The keys of a layer take no more than an agreement. -/
theorem derive_of_agrees {their : PublicKey} (h : their.Agrees) (our : PrivateKey) (salt : Bytes) :
    ∃ keys, LayerKeys.derive their our salt = .ok keys := by
  obtain ⟨secret, hsecret⟩ := h our
  rw [LayerKeys.derive, hsecret]
  exact ⟨_, rfl⟩

theorem wrap_of_agrees {recipient : PublicKey} (h : recipient.Agrees) (ephemeral our : KeyPair)
    (content : SealedContent) :
    ∃ envelope, wrap ephemeral recipient our content = .ok envelope := by
  obtain ⟨outer, houter⟩ :=
    derive_of_agrees h ephemeral.privateKey (outerSalt recipient ephemeral.publicKey)
  obtain ⟨inner, hinner⟩ := derive_of_agrees h our.privateKey
    (innerSalt outer.chaining (encryptLayer outer our.publicKey.wire.toList))
  exact ⟨_, bind_ok.mpr ⟨outer, houter, bind_ok.mpr ⟨inner, hinner, rfl⟩⟩⟩

end Seal

namespace SealedEngine

variable {destination : Address} {certificate : SenderCertificate} {plain : Bytes}
  {d d' d₁ : Device} {their : PublicKey}

/-- Sealing for an identity that keys agree with fails only where the content fails. -/
theorem encrypt_of_agrees {fallback : Bool} {kind : SealedKind} {content : Bytes}
    (known : d.stores.identity.known.get? destination = some their) (agrees : their.Agrees)
    (made : outcome (makeContent destination their plain fallback) d = (.ok (kind, content), d₁)) :
    ∃ input d', outcome (encrypt destination certificate plain fallback) d = (.ok input, d') ∧
      d'.stores = d₁.stores := by
  obtain ⟨envelope, henvelope⟩ :=
    Seal.wrap_of_agrees agrees (Draw.keyPair d₁.entropy).1 d.stores.identity.keyPair
    ⟨kind, certificate, content⟩
  refine ⟨envelope.serialize, ⟨d₁.stores, (Draw.keyPair d₁.entropy).2⟩, ?_, rfl⟩
  unfold encrypt
  rw [outcome_bind_of_ok (Action.outcome_stores d)]
  simp only [known]
  rw [outcome_bind_of_ok made, outcome_bind_of_ok (Action.outcome_draw _ d₁), henvelope]
  rfl

/-- The session's message goes into the envelope as it is. -/
theorem makeContent_of_encrypt {m : Message}
    (h : outcome (Engine.encrypt destination plain) d = (.ok m, d₁)) :
    outcome (makeContent destination their plain false) d =
      (.ok (m.kind.inSeal, m.serialized), d₁) := by
  have hadapted :
      outcome ((Engine.encrypt destination plain).adapt SealedError.session) d = (.ok m, d₁) :=
    Action.outcome_adapt_ok.mpr h
  refine (outcome_bind_of_ok hadapted _).trans ?_
  cases m <;> rfl

/-- The identity that is sealed for is the one that the session is with. -/
theorem encrypt_of_session (agrees : ∀ s ∈ d.states destination, s.remoteIdentity.Agrees)
    (known : d.stores.identity.known.get? destination = some their) {m : Message}
    (h : outcome (Engine.encrypt destination plain) d = (.ok m, d₁)) :
    ∃ input d', outcome (encrypt destination certificate plain false) d = (.ok input, d') ∧
      d'.stores = d₁.stores := by
  obtain ⟨s, after, hcurrent, -, htrusted, -⟩ := Engine.encrypt_ok.mp h
  rw [Stores.isTrusted_iff, known] at htrusted
  obtain rfl : their = s.remoteIdentity :=
    Option.some_inj.mp (htrusted.resolve_left (Option.some_ne_none _))
  have hs : s ∈ d.states destination := List.mem_append_left _ (Option.mem_toList.mpr hcurrent)
  exact encrypt_of_agrees known (agrees s hs) (makeContent_of_encrypt h)

end SealedEngine

/-- Whatever a new device has been asked for and whatever random bytes it goes on
with: sealing that fails, for a session or as a fallback, leaves all stores as they
were. Whatever the session can write is sealed and handed out, so that no key of a
chain is spent on a message that is lost. -/
theorem sealing_atomic [Suite.Uniform] (keyPair : KeyPair) (registrationId : UInt32)
    (entropy : Entropy) (calls : List Call) {d : Device}
    (reached : d.stores = ((Device.new keyPair registrationId entropy).serve calls).stores)
    (destination : Address) (certificate : SenderCertificate) (plain : Bytes) :
    (∀ fallback fault d',
      outcome (SealedEngine.encrypt destination certificate plain fallback) d = (.error fault, d') →
      d'.stores = d.stores) ∧
    ∀ m d₁, outcome (Engine.encrypt destination plain) d = (.ok m, d₁) →
      ∃ input d',
      outcome (SealedEngine.encrypt destination certificate plain false) d = (.ok input, d') ∧
        d'.stores = d₁.stores := by
  have hagrees : ∀ s ∈ d.states destination, s.remoteIdentity.Agrees := by
    rw [Device.states, reached]
    exact Device.agrees_serve keyPair registrationId entropy calls destination
  have hpinned : d.stores.Pinned :=
    reached ▸ Device.pinned_serve (Stores.pinned_create keyPair registrationId) calls
  have hhanded : ∀ m d₁, outcome (Engine.encrypt destination plain) d = (.ok m, d₁) →
      ∃ input d',
      outcome (SealedEngine.encrypt destination certificate plain false) d = (.ok input, d') ∧
        d'.stores = d₁.stores := by
    intro m d₁ hm
    obtain ⟨s, after, hcurrent, -, -, -⟩ := Engine.encrypt_ok.mp hm
    have hs : s ∈ d.states destination := List.mem_append_left _ (Option.mem_toList.mpr hcurrent)
    exact SealedEngine.encrypt_of_session hagrees (hpinned destination s hs) hm
  refine ⟨fun fallback fault d' hfail => ?_, hhanded⟩
  cases fallback with
  | true =>
    have hkept := SealedEngine.keeps_encrypt_fallback destination certificate plain d
    rwa [hfail] at hkept
  | false =>
    have hstores := SealedEngine.stores_encrypt destination certificate plain false d
    rw [hfail] at hstores
    refine hstores.elim id fun hwritten => ?_
    rcases hrun : outcome (Engine.encrypt destination plain) d with ⟨refused | m, d₁⟩
    · rw [hwritten, hrun, Engine.encrypt_error hrun]
    · obtain ⟨input, d₂, hhanded, -⟩ := hhanded m d₁ hrun
      cases hfail.symm.trans hhanded

namespace Small

omit [Suite] in
theorem uniform_strict : @Suite.Uniform strict := by
  let := strict
  have hnone : ∀ key their, Suite.agree key their = none ↔ their.bytes = .fill 32 0 := by
    intro key their
    show (if their.bytes = .fill 32 0 then none else suite.agree key their) = none ↔ _
    by_cases h : their.bytes = .fill 32 0 <;> simp [h]
  exact ⟨fun key their => (hnone _ _).trans (hnone _ _).symm,
    fun a b their h => (hnone _ _).mpr ((hnone _ _).mp h)⟩

/-- Two bundles: Bob's, and one under Mallory's address with an identity that no key agrees with. -/
def offers : List Call :=
  let bundle : PublicKey → Bundle :=
    .mk 1 1 none 1 (device 7).stores.identity.keyPair.publicKey (List.replicate 64 0)
  [.operation {} (.process bob (bundle (device 101).stores.identity.keyPair.publicKey)),
    .operation {} (.process mallory (bundle ⟨.fill 32 0⟩))]

def offered : Device := @Device.serve strict (device 1) offers

end Small

omit [Suite] in
/-- A message for Bob is sealed; with Mallory there is no session, and sealing for it
changes nothing. -/
theorem sealing_atomic_offered :
    (∃ input d', outcome
      (@SealedEngine.encrypt Small.strict Small.bob (Small.certificate Small.alice Small.offered)
        [104, 105] false) Small.offered = (.ok input, d')) ∧
    ∃ d', outcome (@SealedEngine.encrypt Small.strict Small.mallory
      (Small.certificate Small.alice Small.offered)
        [104, 105] false) Small.offered = (.error (.unknownRecipient Small.mallory), d') ∧
      d'.stores = Small.offered.stores := by
  let := Small.strict
  have := Small.uniform_strict
  have hreached : Small.offered.stores = ((Device.new _ _ _).serve Small.offers).stores := rfl
  have hwritten : (outcome (Engine.encrypt Small.bob [104, 105]) Small.offered).1.isOk = true := by
    decide +kernel
  have hrefused :
      (outcome (SealedEngine.encrypt Small.mallory (Small.certificate Small.alice Small.offered)
      [104, 105] false) Small.offered).1 = .error (.unknownRecipient Small.mallory) := by
    decide +kernel
  obtain ⟨d', hfail⟩ := outcome_of_result hrefused
  obtain ⟨m, d₁, hrun⟩ := outcome_of_isOk hwritten
  obtain ⟨input, d₂, hsealed, -⟩ := (sealing_atomic _ _ _ _ hreached Small.bob
    (Small.certificate Small.alice Small.offered) [104, 105]).2 m d₁ hrun
  exact ⟨⟨input, d₂, hsealed⟩, d', hfail, (sealing_atomic _ _ _ _ hreached _ _ _).1 _ _ _ hfail⟩

end DoubleRatchet
