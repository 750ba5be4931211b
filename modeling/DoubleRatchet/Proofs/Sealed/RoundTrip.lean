import DoubleRatchet.Proofs.Conversation.Delivery
import DoubleRatchet.Proofs.Engine.AtMostOnce
import DoubleRatchet.Proofs.Sealed.Authority
import DoubleRatchet.Proofs.Sealed.Gate
import DoubleRatchet.Proofs.Sealed.Layers
import DoubleRatchet.Proofs.Sealed.Pinning
import DoubleRatchet.Proofs.Session.Written

/-!
# Sealed messages arrive

What one device seals for another, under a certificate that was issued to it,
is opened by the other as what was sealed. A fallback comes back as its
plaintext. A message of the session comes out of the envelope as it went in, and
what then becomes of it is what becomes of it without an envelope. Main
statement: `sealed_round_trip`.
-/
namespace DoubleRatchet

variable [Suite]

/-- A new device with a genuine identity, whatever it has been asked for since,
whatever random bytes it was given, and however its stores were edited, as long
as the identity is its own and its records hold no states but those that it had. -/
inductive Device.Reachable : Device → Prop
  | new {keyPair : KeyPair} (h : keyPair.Genuine) (registrationId : UInt32) (entropy : Entropy) :
      Reachable (.new keyPair registrationId entropy)
  | call {d : Device} (h : d.Reachable) (call : Call) : Reachable (call.perform d)
  | edited {d : Device} (h : d.Reachable) {s : Stores}
      (identity : s.identity.keyPair = d.stores.identity.keyPair)
      (states : ∀ peer, ∀ t ∈ (s.loadSession peer).states, ∃ other, t ∈ d.states other)
      (entropy : Entropy) :
      Reachable ⟨s, entropy⟩

/-- The identity of a device is genuine, and its states come from the engine. -/
structure Device.Sound (d : Device) : Prop where
  identity : d.stores.identity.keyPair.Genuine
  states : ∀ peer, ∀ t ∈ d.states peer, t.Settled

/-- No operation replaces the identity of a device. -/
theorem keyPair_perform (c : Config) (d : Device) (op : Operation) :
    (op.perform c d).stores.identity.keyPair = d.stores.identity.keyPair := by
  obtain ⟨known, hidentity⟩ := identity_perform c d op
  rw [hidentity]

theorem Device.Sound.call {d : Device} (h : d.Sound) (call : Call) : (call.perform d).Sound := by
  rcases call.stores_perform d with hsame | ⟨c, op, hop⟩
  · refine ⟨?_, ?_⟩
    · rw [hsame]
      exact h.identity
    · simp only [Device.states, hsame]
      exact h.states
  · refine ⟨?_, ?_⟩
    · rw [hop, keyPair_perform]
      exact h.identity
    · simp only [Device.states, hop]
      exact (State.Settled.lasting c).perform h.states op

theorem Device.Reachable.sound {d : Device} (h : d.Reachable) : d.Sound := by
  induction h with
  | new h registrationId entropy => exact ⟨h, fun _ _ ht => absurd ht List.not_mem_nil⟩
  | call _ call ih => exact ih.call call
  | edited _ identity states entropy ih =>
    refine ⟨identity ▸ ih.identity, fun peer t ht => ?_⟩
    obtain ⟨other, hother⟩ := states peer t ht
    exact ih.states other t hother

/-- The kind of a sealed content that carries a message of the session. -/
def MessageKind.inSeal : MessageKind → SealedKind
  | preKey => .preKey
  | whisper => .whisper

/-- A settled state writes messages that are read from their own bytes. -/
theorem State.Settled.genuine_wrapped {s : State} (h : s.Settled) (plain : Bytes) :
    (s.wrapped plain).Genuine :=
  State.genuine_wrapped h.version plain

theorem Device.Sound.genuine_encrypt {d d' : Device} (h : d.Sound) {peer : Address} {plain : Bytes}
    {m : Message} (hm : outcome (Engine.encrypt peer plain) d = (.ok m, d')) : m.Genuine := by
  obtain ⟨s, after, hcurrent, hwritten, -, -⟩ := Engine.encrypt_ok.mp hm
  have hs : s ∈ d.states peer := List.mem_append_left _ (Option.mem_toList.mpr hcurrent)
  rw [(State.encrypt_ok.mp hwritten).2.1]
  exact (h.states peer s hs).genuine_wrapped plain

namespace SealedEngine

section Encrypt

variable {destination : Address} {certificate : SenderCertificate} {their : PublicKey}
  {plain : Bytes} {d d' : Device} {kind : SealedKind} {content : Bytes}

/-- A fallback is under the agreement of the identities, and leaves the stores alone. -/
theorem makeContent_fallback
    (h : outcome (makeContent destination their plain true) d = (.ok (kind, content), d')) :
    kind = .fallback ∧ d'.stores = d.stores ∧ ∃ key nonce,
      Seal.fallbackKey d.stores.identity.keyPair.privateKey their = .ok key ∧
        content = Seal.fallbackEncrypt key nonce plain := by
  obtain ⟨stores, d₁, hstores, h⟩ := outcome_bind_ok.mp h
  cases hstores
  obtain ⟨key, d₂, hkey, h⟩ := outcome_bind_ok.mp h
  rw [Action.outcome_ofExcept, Prod.mk.injEq, mapError_ok] at hkey
  obtain ⟨hkey, rfl⟩ := hkey
  obtain ⟨nonce, d₃, hnonce, h⟩ := outcome_bind_ok.mp h
  cases hnonce
  cases h
  exact ⟨rfl, rfl, key, _, hkey, rfl⟩

/-- Otherwise it is the next message of the session. -/
theorem makeContent_session
    (h : outcome (makeContent destination their plain false) d = (.ok (kind, content), d')) :
    ∃ m, outcome (Engine.encrypt destination plain) d = (.ok m, d') ∧ kind = m.kind.inSeal ∧
      content = m.serialized := by
  obtain ⟨m, d₁, hm, h⟩ := outcome_bind_ok.mp h
  cases h
  refine ⟨m, Action.outcome_adapt_ok.mp hm, ?_, rfl⟩
  cases m <;> rfl

/-- What is sealed goes to the pinned identity, from ours and a fresh pair. -/
theorem encrypt_ok {fallback : Bool} {input : Bytes}
    (h : outcome (encrypt destination certificate plain fallback) d = (.ok input, d')) :
    ∃ their kind content d₁ ephemeral envelope,
      d.stores.identity.known.get? destination = some their ∧
      outcome (makeContent destination their plain fallback) d = (.ok (kind, content), d₁) ∧
      ephemeral.Genuine ∧
      Seal.wrap ephemeral their d.stores.identity.keyPair ⟨kind, certificate, content⟩ =
        .ok envelope ∧
      input = envelope.serialize ∧ d'.stores = d₁.stores := by
  obtain ⟨stores, d₀, hstores, h⟩ := outcome_bind_ok.mp h
  cases hstores
  cases hknown : d.stores.identity.known.get? destination with
  | none =>
    rw [hknown] at h
    cases h
  | some their =>
    simp only [hknown] at h
    obtain ⟨⟨kind, content⟩, d₁, hcontent, h⟩ := outcome_bind_ok.mp h
    obtain ⟨ephemeral, d₂, hephemeral, h⟩ := outcome_bind_ok.mp h
    rw [Action.outcome_draw, Prod.mk.injEq, Except.ok.injEq] at hephemeral
    obtain ⟨rfl, rfl⟩ := hephemeral
    obtain ⟨envelope, d₃, hwrap, h⟩ := outcome_bind_ok.mp h
    rw [Action.outcome_ofExcept, Prod.mk.injEq, mapError_ok] at hwrap
    obtain ⟨hwrap, rfl⟩ := hwrap
    cases h
    exact ⟨their, kind, content, d₁, _, envelope, rfl, hcontent,
      genuine_keyPair d₁.entropy, hwrap, rfl, rfl⟩

end Encrypt

/-- A message of the session goes on to the engine as it was before it was sealed. -/
theorem outcome_decryptContent_session {m : Message}
    (hm : Message.parse m.kind.number m.serialized = .ok m) (c : Config) (now : UInt64)
    (origin : Address) (identity : PublicKey) (certificate : SenderCertificate) (d : Device) :
    outcome (decryptContent c now origin identity ⟨m.kind.inSeal, certificate, m.serialized⟩) d =
      ((outcome (Engine.decrypt c now origin m) d).1.mapError .session,
        (outcome (Engine.decrypt c now origin m) d).2) := by
  cases m with
  | ratchet m =>
    have hmap : ∃ m', RatchetMessage.parse m.serialized = .ok m' ∧
        .ratchet m' = Message.ratchet m := map_ok.mp hm
    obtain ⟨_, hparse, heq⟩ := hmap
    cases heq
    simp only [decryptContent, Message.kind, MessageKind.inSeal, Message.serialized, outcome_bind,
      Action.outcome_ofExcept, hparse, mapError_of_ok, Action.outcome_adapt]
    rfl
  | preKey m =>
    have hmap : ∃ m', PreKeyMessage.parse m.serialized = .ok m' ∧ .preKey m' = Message.preKey m :=
      map_ok.mp hm
    obtain ⟨_, hparse, heq⟩ := hmap
    cases heq
    simp only [decryptContent, Message.kind, MessageKind.inSeal, Message.serialized, outcome_bind,
      Action.outcome_ofExcept, hparse, mapError_of_ok, Action.outcome_adapt]
    rfl

section Delivery

variable [Suite.Lawful] {root server : PrivateKey} {origin destination localAddress : Address}
  {certificate : SenderCertificate} {expires time : UInt64} {plain input : Bytes} {fallback : Bool}
  {sender sender' receiver : Device}

/-- The recipient goes on with what the sender made for it, under the address on the certificate. -/
theorem decrypt_encrypt (hroot : root.Signs) (hserver : server.Signs) (hsender : sender.Sound)
    (hreceiver : receiver.Sound)
    (hpinned : sender.stores.identity.known.get? destination =
      some receiver.stores.identity.keyPair.publicKey)
    (hissued : certificate.Issued root server origin
      sender.stores.identity.keyPair.publicKey expires)
    (htime : time ≤ expires) (hother : origin ≠ localAddress)
    (h : outcome (encrypt destination certificate plain fallback) sender = (.ok input, sender'))
    (hlength : input.length < 1 <<< 64) :
    ∃ kind content d₁,
      outcome (makeContent destination receiver.stores.identity.keyPair.publicKey plain fallback)
          sender =
        (.ok (kind, content), d₁) ∧ sender'.stores = d₁.stores ∧ content.length < 1 <<< 64 ∧
      ∀ c now, outcome (decrypt c now (Suite.publicKey root) input time localAddress) receiver =
        let run := outcome (decryptContent c now origin sender.stores.identity.keyPair.publicKey
          ⟨kind, certificate, content⟩) receiver
        ((run.1.mapError (.knownSender origin kind)).map fun plain => ⟨origin, kind, plain⟩,
          run.2) := by
  obtain ⟨their, kind, content, d₁, ephemeral, envelope, hknown, hcontent, hephemeral,
      hwrap, rfl, hstores⟩ :=
    encrypt_ok h
  obtain rfl : _ = their := Option.some_inj.mp (hpinned.symm.trans hknown)
  -- everything inside of the envelope is as short as the envelope
  have hmessage := (SealedEnvelope.length_le_serialize envelope).2
  rw [Seal.length_wrap hwrap] at hmessage
  have hserialized :
      (⟨kind, certificate, content⟩ : SealedContent).serialize.length < 1 <<< 64 := by omega
  obtain ⟨hle, hcontent_le⟩ := SealedContent.length_le_serialize ⟨kind, certificate, content⟩
  have hsigned := Nat.lt_of_le_of_lt
    (Nat.le_trans (SenderCertificate.length_le_serialize certificate) hle) hserialized
  obtain ⟨rfl, hkey, hwellFormed, hvalid⟩ := hissued.valid hroot hserver hsigned
  have hunwrap := Seal.unwrap_wrap hephemeral hsender.identity hreceiver.identity
    (SealedContent.parse_serialize hwellFormed hserialized) hwrap
  have hunsealed : Seal.unsealed receiver.stores.identity.keyPair envelope.serialize =
      .ok (sender.stores.identity.keyPair.publicKey, ⟨kind, certificate, content⟩) := by
    rw [Seal.unsealed, SealedEnvelope.parse_serialize hlength]
    exact hunwrap
  refine ⟨kind, content, d₁, hcontent, hstores,
    Nat.lt_of_le_of_lt hcontent_le hserialized, fun c now => ?_⟩
  rw [outcome_decrypt, hunsealed]
  simp only [if_neg hother, outcome_decryptChecked, hvalid time, if_pos htime, hkey, if_true]

end Delivery

end SealedEngine

/-- Under the keys that it was written under, a message opens as its plaintext. -/
theorem State.written_opens [Suite.Lawful] {s : State} {plain text : Bytes}
    (h : (s.written plain).OpensUnder s.sender.chain.messageKeys text) : text = plain := by
  have hbody := Suite.cbc_decrypt_encrypt s.sender.chain.messageKeys.cipherKey
    s.sender.chain.messageKeys.iv plain
  exact Option.some_inj.mp (h.2.symm.trans hbody)

/-- Two devices in any state that they can get to, the sender with the recipient's
identity pinned and with a certificate for its own address and identity that has
not expired, from keys whose signatures verify. Whatever comes out of sealing a
plaintext is opened by the recipient. A fallback is opened as the plaintext, and
no store of either changes. A message of the session is opened as the recipient
decrypts that message, with the same result and the same effect. What is read is
the plaintext, if it is read under the keys that it was written under, and so it
is in every conversation in which the recipient has the means to tell the keys.
Else the tag is right by accident, under keys that it was not made with. A byte
string in memory is shorter than the bound. -/
theorem sealed_round_trip [Suite.Lawful] {root server : PrivateKey}
    {origin destination localAddress : Address} {certificate : SenderCertificate}
    {expires time : UInt64} {plain input : Bytes} {fallback : Bool}
    {sender sender' receiver : Device} (hroot : root.Signs) (hserver : server.Signs)
    (hsender : sender.Reachable) (hreceiver : receiver.Reachable)
    (hpinned : sender.stores.identity.known.get? destination =
      some receiver.stores.identity.keyPair.publicKey)
    (hissued : certificate.Issued root server origin
      sender.stores.identity.keyPair.publicKey expires)
    (htime : time ≤ expires) (hother : origin ≠ localAddress)
    (hsealed : outcome (SealedEngine.encrypt destination certificate plain fallback) sender =
      (.ok input, sender'))
    (hlength : input.length < 1 <<< 64) (c : Config) (now : UInt64) :
    let opened := outcome
      (SealedEngine.decrypt c now (Suite.publicKey root) input time localAddress) receiver
    (fallback = true →
      sender'.stores = sender.stores ∧ opened = (.ok ⟨origin, .fallback, plain⟩, receiver)) ∧
    (fallback = false → ∃ s m written,
      (sender.stores.loadSession destination).current = some s ∧
      outcome (Engine.encrypt destination plain) sender = (.ok m, written) ∧
      sender'.stores = written.stores ∧
      (opened = match outcome (Engine.decrypt c now origin m) receiver with
        | (.ok text, receiver') => (.ok ⟨origin, m.kind.inSeal, text⟩, receiver')
        | (.error fault, receiver') =>
          (.error (.knownSender origin m.kind.inSeal (.session fault)), receiver')) ∧
      ∀ text receiver',
        outcome (Engine.decrypt c now origin m) receiver = (.ok text, receiver') →
          ∃ keys, Engine.readingKeys? c now origin m receiver = some keys ∧
            m.inner.OpensUnder keys text ∧
            (keys = s.sender.chain.messageKeys ∨ receiver.Expects c origin m plain →
              text = plain)) := by
  intro opened
  obtain ⟨kind, content, d₁, hcontent, hstores, hshort, hopened⟩ :=
    SealedEngine.decrypt_encrypt hroot hserver hsender.sound hreceiver.sound hpinned hissued htime
      hother hsealed hlength
  have hopened : opened = _ := hopened c now
  constructor
  · rintro rfl
    obtain ⟨rfl, hsame, key, nonce, hkey, rfl⟩ := SealedEngine.makeContent_fallback hcontent
    have hplain := Seal.fallbackDecrypt_fallbackEncrypt hsender.sound.identity
      hreceiver.sound.identity hkey nonce plain
    have hrun : outcome (SealedEngine.decryptContent c now origin
        sender.stores.identity.keyPair.publicKey
        ⟨.fallback, certificate, Seal.fallbackEncrypt key nonce plain⟩) receiver =
          (.ok plain, receiver) := by
      simp only [SealedEngine.decryptContent, outcome_bind, Action.outcome_stores,
        Action.outcome_ofExcept, hplain]
    rw [hrun] at hopened
    exact ⟨hstores.trans hsame, hopened⟩
  · rintro rfl
    obtain ⟨m, hm, rfl, rfl⟩ := SealedEngine.makeContent_session hcontent
    obtain ⟨s, after, hcurrent, hwritten, -, -⟩ := Engine.encrypt_ok.mp hm
    have hread := (hsender.sound.genuine_encrypt hm).parse_serialized hshort
    rw [SealedEngine.outcome_decryptContent_session hread] at hopened
    refine ⟨s, m, d₁, hcurrent, hm, hstores, ?_, fun text receiver' htext => ?_⟩
    · rw [hopened]
      rcases outcome (Engine.decrypt c now origin m) receiver with ⟨fault | text, receiver'⟩ <;> rfl
    · obtain ⟨keys, hkeys, hopens⟩ := Engine.readingKeys?_of_decrypt htext
      refine ⟨keys, hkeys, hopens, ?_⟩
      rintro (rfl | hexpects)
      · rw [(State.encrypt_ok.mp hwritten).2.1, State.inner_wrapped] at hopens
        exact State.written_opens hopens
      · exact hexpects.plain_of_decrypt htext

namespace Small

/-- What Alice seals for Bob, with the session that she has started or without it. -/
def parcel (fallback : Bool) : Bytes :=
  match (outcome
    (@SealedEngine.encrypt suite bob (certificate alice (starter {})) [104, 105] fallback)
      (starter {})).1 with
  | .ok input => input
  | .error _ => []

omit [Suite] in
theorem reachable_publisher : @Device.Reachable suite publisher := by
  let := suite
  exact .call (.new (genuine_keyPair (entropy 101)) _ _) (.operation {} (.generate 1 1 2 0))

omit [Suite] in
theorem reachable_starter : @Device.Reachable suite (starter {}) := by
  let := suite
  have hnew : (device 1).Reachable := .new (genuine_keyPair (entropy 1)) _ _
  unfold starter
  cases PreKeys.currentBundle publisher.stores 1 with
  | error fault => exact hnew
  | ok published =>
    simp only [Engine.establish, outcome_bind, Action.outcome_ofExcept]
    cases Bundle.ofPublished published none with
    | error fault => exact hnew
    | ok bundle => exact hnew.call (.operation {} (.process bob bundle))

omit [Suite] in
theorem issued_starter : @SenderCertificate.Issued suite default default alice
    (starter {}).stores.identity.keyPair.publicKey 9 (certificate alice (starter {})) :=
  ⟨1, entropy 60, server, entropy 61, by decide +kernel, by decide +kernel⟩

/-- Alice starts from the bundle as Bob published it. -/
def introduction : Opening :=
  { opening with
    choice := none
    bundle := match Bundle.ofPublished published none with
      | .ok b => b
      | .error _ => bundle
    started := starter {} }

omit [Suite] in
theorem fresh_introduction : @Opening.Fresh suite introduction :=
  fresh_of_started (by decide +kernel) (Prod.ext (by decide +kernel) rfl)

omit [Suite] in
/-- In the conversation that follows Bob expects the greeting. -/
theorem expects_greeting :
    @Device.Expects suite {} alice (greeting {}) [104, 105] publisher := by
  let := suite
  have hsent : ((introduction.conversation.run [.write .initiator [104, 105]]).seat
      .initiator).sent[0]? = some (greeting {}, [104, 105]) := by decide +kernel
  refine ⟨introduction, introduction.conversation.run [.write .initiator [104, 105]], .responder, 0,
    fresh_introduction, ⟨_, rfl⟩, ?_, hsent, ?_, rfl, rfl, rfl⟩
  · decide +kernel
  · decide +kernel

end Small

omit [Suite] in
/-- Bob opens both parcels in the last millisecond of Alice's certificate. The
session gets the message as if it had come without an envelope, and reads it as
what was sealed. -/
theorem sealed_round_trip_parcels :
    let opened fallback := outcome (@SealedEngine.decrypt Small.suite {} 0
      (@Suite.publicKey Small.suite default) (Small.parcel fallback) 9 Small.bob) Small.publisher
    opened true = (.ok ⟨Small.alice, .fallback, [104, 105]⟩, Small.publisher) ∧
    ∃ receiver',
      outcome (@Engine.decrypt Small.suite {} 0 Small.alice (Small.greeting {})) Small.publisher =
        (.ok [104, 105], receiver') ∧
      opened false = (.ok ⟨Small.alice, .preKey, [104, 105]⟩, receiver') := by
  let := Small.suite
  have := Small.lawful
  have hsigns := Small.signs default
  have hpinned : (Small.starter {}).stores.identity.known.get? Small.bob =
      some Small.publisher.stores.identity.keyPair.publicKey := by decide +kernel
  have hshort : ∀ fallback, (Small.parcel fallback).length < 1 <<< 64 := by decide +kernel
  have hparcel : ∀ fallback, (outcome (SealedEngine.encrypt Small.bob
      (Small.certificate Small.alice (Small.starter {})) [104, 105] fallback)
      (Small.starter {})).1 = .ok (Small.parcel fallback) := by decide +kernel
  have hwritten : (outcome (Engine.encrypt Small.bob [104, 105]) (Small.starter {})).1 =
      .ok (Small.greeting {}) := by decide +kernel
  have hreads : (outcome (Engine.decrypt {} 0 Small.alice (Small.greeting {}))
      Small.publisher).1.isOk = true := by decide +kernel
  have hkind : (Small.greeting {}).kind.inSeal = .preKey := by decide +kernel
  have hlast : (9 : UInt64) ≤ 9 := by decide
  have hother : Small.alice ≠ Small.bob := by decide
  obtain ⟨_, hfallback⟩ := outcome_of_result (hparcel true)
  obtain ⟨_, hsession⟩ := outcome_of_result (hparcel false)
  obtain ⟨hopened, -⟩ := sealed_round_trip hsigns hsigns Small.reachable_starter
    Small.reachable_publisher hpinned Small.issued_starter hlast hother hfallback (hshort true) {} 0
  obtain ⟨-, hwrapped⟩ := sealed_round_trip hsigns hsigns Small.reachable_starter
    Small.reachable_publisher hpinned Small.issued_starter hlast hother hsession (hshort false) {} 0
  obtain ⟨s, m, written, -, hm, -, hmessage, hplain⟩ := hwrapped rfl
  obtain rfl : m = Small.greeting {} := Except.ok.inj (by rw [← hwritten, hm])
  obtain ⟨text, receiver', hreceived⟩ := outcome_of_isOk hreads
  obtain ⟨keys, -, -, hsame⟩ := hplain text receiver' hreceived
  obtain rfl : text = [104, 105] := hsame (.inr Small.expects_greeting)
  simp only [hreceived, hkind] at hmessage
  exact ⟨(hopened rfl).2, receiver', hreceived, hmessage⟩

end DoubleRatchet
