import DoubleRatchet.Proofs.Engine.Runs
import DoubleRatchet.Sealed.Engine

/-!
# Opening sealed messages

What has to hold of an envelope, of the certificate in it and of the message
that it wraps for a device to accept it, and that a device which refuses it
keeps its stores.
-/
namespace DoubleRatchet

variable [Suite]

/-- The sender's identity and the content of a sealed envelope. -/
def Seal.unsealed (our : KeyPair) (input : Bytes) :
    Except SealedError (PublicKey × SealedContent) := do
  let envelope ← (SealedEnvelope.parse input).mapError .ofWire
  unwrap envelope our

/-- The message of a session that a content wraps; a fallback wraps none. -/
def SealedContent.message? (content : SealedContent) : Option Message :=
  match content.kind with
  | .fallback => none
  | .preKey => (PreKeyMessage.parse content.content).toOption.map .preKey
  | .whisper => (RatchetMessage.parse content.content).toOption.map .ratchet

namespace SealedEngine

/-- A message is parsed before it goes to the engine. -/
theorem parsed_ok {μ : Type} {c : Config} {now : UInt64} {sender : Address} {d d' : Device}
    {plain : Bytes} {parsed : Except WireFault μ} (kind : μ → Message) :
    outcome (do
      let m ← Action.ofExcept (parsed.mapError SealedError.ofWire)
      (Engine.decrypt c now sender (kind m)).adapt SealedError.session) d = (.ok plain, d') ↔
      ∃ m, parsed.toOption.map kind = some m ∧
      outcome (Engine.decrypt c now sender m) d = (.ok plain, d') := by
  cases parsed with
  | error fault => simp [outcome_bind, Except.toOption]
  | ok m => simp [outcome_bind, Except.toOption, Action.outcome_adapt_ok, -Action.outcome_adapt]

/-- The message of a session goes to the engine under the sender that is named. -/
theorem decryptContent_ok {c : Config} {now : UInt64} {sender : Address} {identity : PublicKey}
    {content : SealedContent} {d d' : Device} {plain : Bytes} (session : content.kind ≠ .fallback) :
    outcome (decryptContent c now sender identity content) d = (.ok plain, d') ↔
      ∃ m, content.message? = some m ∧
      outcome (Engine.decrypt c now sender m) d = (.ok plain, d') := by
  obtain ⟨kind, certificate, bytes⟩ := content
  cases kind with
  | fallback => exact absurd rfl session
  | preKey => exact parsed_ok Message.preKey
  | whisper => exact parsed_ok Message.ratchet

/-- A fallback is no message of a session, and touches no store. -/
theorem stores_decryptContent_fallback (c : Config) (now : UInt64) (d : Device) (sender : Address)
    (identity : PublicKey) {content : SealedContent} (hkind : content.kind = .fallback) :
    (outcome (decryptContent c now sender identity content) d).2.stores = d.stores := by
  obtain ⟨kind, certificate, bytes⟩ := content
  cases hkind
  have hkeep :
      Keeps Device.stores (decryptContent c now sender identity ⟨.fallback, certificate, bytes⟩) :=
    .bind (fun _ => rfl) fun _ _ => rfl
  exact hkeep d

/-- A content is decrypted once its certificate is valid and for the key that sealed it. -/
theorem decryptChecked_ok {c : Config} {now : UInt64} {root : PublicKey} {time : UInt64}
    {identity : PublicKey} {content : SealedContent} {d d' : Device} {plain : Bytes} :
    outcome (decryptChecked c now root time identity content) d = (.ok plain, d') ↔
      content.certificate.validate root time = .ok () ∧ content.certificate.identityKey = identity ∧
        outcome (decryptContent c now content.certificate.sender identity content) d =
          (.ok plain, d') := by
  unfold decryptChecked
  rcases hvalid : content.certificate.validate root time with fault | _
  · simp [outcome_bind, hvalid]
  · by_cases hkey : content.certificate.identityKey = identity
    · simp [outcome_bind, hvalid, hkey]
    · simp [outcome_bind, hvalid, hkey]

theorem decrypt_ok {c : Config} {now : UInt64} {root : PublicKey} {input : Bytes} {time : UInt64}
    {localAddress : Address} {d d' : Device} {opened : Opened} :
    outcome (decrypt c now root input time localAddress) d = (.ok opened, d') ↔
      ∃ content, Seal.unsealed d.stores.identity.keyPair input =
        .ok (content.certificate.identityKey, content) ∧
        content.certificate.sender ≠ localAddress ∧
        content.certificate.validate root time = .ok () ∧
        outcome (decryptContent c now content.certificate.sender
          content.certificate.identityKey content) d =
          (.ok opened.plain, d') ∧
        opened.sender = content.certificate.sender ∧ opened.kind = content.kind := by
  unfold decrypt Seal.unsealed
  rw [outcome_bind, Action.outcome_stores]
  constructor
  · intro h
    obtain ⟨envelope, d₁, hparsed, h⟩ := outcome_bind_ok.mp h
    obtain ⟨hparse, rfl⟩ := Prod.mk.inj hparsed
    obtain ⟨⟨identity, content⟩, d₁, hunwrapped, h⟩ := outcome_bind_ok.mp h
    obtain ⟨hunwrap, rfl⟩ := Prod.mk.inj hunwrapped
    by_cases hself : content.certificate.sender = localAddress
    · simp [hself] at h
    · simp only [hself, if_false] at h
      obtain ⟨plain, d₁, hplain, h⟩ := outcome_bind_ok.mp h
      obtain ⟨hresult, rfl⟩ := Prod.mk.inj h
      obtain rfl := Except.ok.inj hresult
      obtain ⟨hvalid, rfl, hcontent⟩ := decryptChecked_ok.mp (Action.outcome_adapt_ok.mp hplain)
      exact ⟨content, bind_ok.mpr ⟨envelope, hparse, hunwrap⟩, hself, hvalid, hcontent, rfl, rfl⟩
  · rintro ⟨content, hunseal, hself, hvalid, hcontent, hsender, hkind⟩
    obtain ⟨envelope, hparse, hunwrap⟩ := bind_ok.mp hunseal
    obtain ⟨sender, kind, plain⟩ := opened
    obtain rfl : sender = _ := hsender
    obtain rfl : kind = _ := hkind
    have hchecked := decryptChecked_ok.mpr ⟨hvalid, rfl, hcontent⟩
    refine outcome_bind_ok.mpr ⟨envelope, d, Prod.ext hparse rfl,
      outcome_bind_ok.mpr ⟨_, d, Prod.ext hunwrap rfl, ?_⟩⟩
    simp only [hself, if_false]
    exact outcome_bind_ok.mpr ⟨plain, d', Action.outcome_adapt_ok.mpr hchecked, rfl⟩

section Atomic

variable (c : Config) (now : UInt64)

theorem atomic_decryptContent (sender : Address) (identity : PublicKey) (content : SealedContent) :
    Atomic Device.stores (decryptContent c now sender identity content) := by
  have hengine :
      ∀ m, Atomic Device.stores ((Engine.decrypt c now sender m).adapt SealedError.session) :=
    fun m => Action.atomic_adapt (fun _ _ _ => Engine.decrypt_error) _
  obtain ⟨kind, certificate, bytes⟩ := content
  cases kind with
  | fallback => exact Keeps.then_atomic (fun _ => rfl) fun _ => Keeps.atomic fun _ => rfl
  | preKey => exact Keeps.then_atomic (fun _ => rfl) fun m => hengine (.preKey m)
  | whisper => exact Keeps.then_atomic (fun _ => rfl) fun m => hengine (.ratchet m)

theorem atomic_decryptChecked (root : PublicKey) (time : UInt64) (identity : PublicKey)
    (content : SealedContent) :
    Atomic Device.stores (decryptChecked c now root time identity content) := by
  refine Keeps.then_atomic (fun _ => rfl) fun _ => ?_
  by_cases hkey : content.certificate.identityKey = identity
  · simp only [ne_eq, hkey, not_true_eq_false, if_false]
    exact atomic_decryptContent c now _ _ _
  · simp only [ne_eq, hkey, not_false_eq_true, if_true]
    exact Keeps.atomic fun _ => rfl

theorem atomic_decrypt (root : PublicKey) (input : Bytes) (time : UInt64) (localAddress : Address) :
    Atomic Device.stores (decrypt c now root input time localAddress) := by
  refine Keeps.then_atomic (fun _ => rfl) fun stores =>
    Keeps.then_atomic (fun _ => rfl) fun envelope => ?_
  refine Keeps.then_atomic (fun _ => rfl) fun (identity, content) => ?_
  by_cases hself : content.certificate.sender = localAddress
  · simp only [hself, if_true]
    exact Keeps.atomic fun _ => rfl
  · simp only [hself, if_false]
    have hchecked := atomic_decryptChecked c now root time identity content
    exact (Action.atomic_adapt hchecked _).then_ok fun plain d => ⟨_, d, rfl⟩

end Atomic

/-- An envelope that is refused leaves the stores as they were. -/
theorem decrypt_error {c : Config} {now : UInt64} {root : PublicKey} {input : Bytes} {time : UInt64}
    {localAddress : Address} {d d' : Device} {fault : SealedError}
    (h : outcome (decrypt c now root input time localAddress) d = (.error fault, d')) :
    d'.stores = d.stores :=
  atomic_decrypt c now root input time localAddress _ _ _ h

end SealedEngine

namespace Small

def mallory : Address := ⟨"mallory", 1⟩

/-- A server that signs senders; the small suite accepts any signature. -/
def server : ServerCertificate :=
  ⟨1, default, ServerCertificate.content 1 default, List.replicate 64 0⟩

/-- A certificate for the identity of a device under some address. -/
def certificate (sender : Address) (d : Device) : SenderCertificate :=
  ⟨sender, 9, d.stores.identity.keyPair.publicKey, server,
    SenderCertificate.content sender 9 d.stores.identity.keyPair.publicKey server,
    List.replicate 64 0⟩

/-- A message that a device seals to the publisher, whoever wrote it, under a
certificate of its own. -/
def resealed (sender : Address) (d : Device) (m : Message) : Bytes :=
  let kind := match m.kind with | .preKey => .preKey | .whisper => .whisper
  match @Seal.wrap suite
    (@Draw.keyPair suite (entropy 70)).1 publisher.stores.identity.keyPair.publicKey
      d.stores.identity.keyPair ⟨kind, certificate sender d, m.serialized⟩ with
  | .ok envelope => envelope.serialize
  | .error _ => []

end Small

end DoubleRatchet
