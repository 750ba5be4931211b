import DoubleRatchet.Proofs.Sealed.Operations
import DoubleRatchet.Proofs.Wire.Certificate

/-!
# What stands between an envelope and a session

An envelope is opened by way of two layers, a certificate with two signatures,
and only then the session of the sender that the certificate names. What comes
out has passed all of it; what goes wrong after the layers names that sender;
and nothing is ever stored for anyone else. Main statement: `gate`.
-/
namespace DoubleRatchet

variable [Suite]

/-- A certificate is valid when both signatures are good and it has not expired. -/
theorem SenderCertificate.validate_ok {c : SenderCertificate} {root : PublicKey} {time : UInt64} :
    c.validate root time = .ok () ↔ root.verifies c.signer.certificate c.signer.signature = true ∧
      c.signer.key.verifies c.certificate c.signature = true ∧ time ≤ c.expires := by
  unfold validate
  cases hserver : root.verifies c.signer.certificate c.signer.signature with
  | false => simp
  | true =>
    cases hsender : c.signer.key.verifies c.certificate c.signature with
    | false => simp
    | true =>
      by_cases hexpired : c.expires < time
      · simp [hexpired]
      · simp [hexpired, UInt64.not_lt.mp hexpired]

theorem Seal.unwrap_ok {e : SealedEnvelope} {our : KeyPair} {identity : PublicKey}
    {content : SealedContent} (h : unwrap e our = .ok (identity, content)) :
    ∃ bs, SealedContent.parse bs = .ok content := by
  obtain ⟨outer, -, h⟩ := bind_ok.mp h
  obtain ⟨static, -, h⟩ := bind_ok.mp h
  obtain ⟨sender, -, h⟩ := bind_ok.mp h
  obtain ⟨inner, -, h⟩ := bind_ok.mp h
  obtain ⟨bytes, -, h⟩ := bind_ok.mp h
  obtain ⟨content, hparse, h⟩ := bind_ok.mp h
  cases h
  exact ⟨bytes, mapError_ok.mp hparse⟩

omit [Suite] in
/-- The record and the pinned identity of a peer are the same in both. -/
def Stores.SameAt (s t : Stores) (peer : Address) : Prop :=
  t.sessions.get? peer = s.sessions.get? peer ∧
    t.identity.known.get? peer = s.identity.known.get? peer

omit [Suite] in
theorem Stores.sameAt_committed (s : Stores) {peer other : Address} (hother : other ≠ peer)
    (identity : PublicKey) (r : Record) (used : Option UInt32) :
    s.SameAt ((s.committed peer identity r).withoutUsed used) other := by
  refine ⟨?_, by rw [known_committed, if_neg hother]⟩
  have hsessions :
      ((s.committed peer identity r).withoutUsed used).sessions = s.sessions.insert peer r := by
    cases used <;> rfl
  rw [hsessions, Table.get?_insert, if_neg hother]

theorem Engine.sameAt_decrypt (c : Config) (now : UInt64) {peer other : Address}
    (hother : other ≠ peer) (m : Message) (d : Device) :
    d.stores.SameAt (outcome (decrypt c now peer m) d).2.stores other := by
  rcases hrun : outcome (decrypt c now peer m) d with ⟨fault | plain, d'⟩
  · rw [decrypt_error hrun]
    exact ⟨rfl, rfl⟩
  · obtain ⟨x, -, -, -, hstores⟩ := decrypt_ok.mp hrun
    rw [hstores]
    exact Stores.sameAt_committed d.stores hother _ _ _

namespace SealedEngine

section Decrypt

variable (c : Config) (now : UInt64) (root : PublicKey) (time : UInt64) (d : Device)

/-- Whatever comes of a content, only what is stored for its sender can change. -/
theorem sameAt_decryptContent {sender other : Address} (hother : other ≠ sender)
    (identity : PublicKey) (content : SealedContent) :
    d.stores.SameAt (outcome (decryptContent c now sender identity content) d).2.stores other := by
  rcases hrun : outcome (decryptContent c now sender identity content) d with ⟨fault | plain, d'⟩
  · rw [atomic_decryptContent c now sender identity content d fault d' hrun]
    exact ⟨rfl, rfl⟩
  · by_cases hkind : content.kind = .fallback
    · have hstores := stores_decryptContent_fallback c now d sender identity hkind
      rw [hrun] at hstores
      rw [hstores]
      exact ⟨rfl, rfl⟩
    · obtain ⟨m, -, hdecrypt⟩ := (decryptContent_ok hkind).mp hrun
      have hsame := Engine.sameAt_decrypt c now hother m d
      rwa [hdecrypt] at hsame

/-- A content goes on to the session once its certificate is valid and for the key
that sealed it. -/
theorem outcome_decryptChecked (identity : PublicKey) (content : SealedContent) :
    outcome (decryptChecked c now root time identity content) d =
      match content.certificate.validate root time with
      | .error fault => (.error (.invalidCertificate fault), d)
      | .ok () =>
        if content.certificate.identityKey = identity then
          outcome (decryptContent c now content.certificate.sender identity content) d
        else (.error .senderKeyMismatch, d) := by
  unfold decryptChecked
  simp only [outcome_bind, Action.outcome_ofExcept]
  cases hvalid : content.certificate.validate root time with
  | error fault => rfl
  | ok =>
    by_cases hkey : content.certificate.identityKey = identity
    · simp [hkey]
    · simp [hkey]

theorem sameAt_decryptChecked (identity : PublicKey) {content : SealedContent} {other : Address}
    (hother : other ≠ content.certificate.sender) :
    d.stores.SameAt
      (outcome (decryptChecked c now root time identity content) d).2.stores other := by
  rw [outcome_decryptChecked]
  split
  · exact ⟨rfl, rfl⟩
  · split
    · exact sameAt_decryptContent c now d hother identity content
    · exact ⟨rfl, rfl⟩

/-- Opening an envelope in one view: the layers come first, then the address,
then all that names the sender. -/
theorem outcome_decrypt (input : Bytes) (localAddress : Address) :
    outcome (decrypt c now root input time localAddress) d =
      match Seal.unsealed d.stores.identity.keyPair input with
      | .error fault => (.error fault, d)
      | .ok (identity, content) =>
        if content.certificate.sender = localAddress then (.error .selfSend, d)
        else
          let run := outcome (decryptChecked c now root time identity content) d
          ((run.1.mapError (.knownSender content.certificate.sender content.kind)).map fun plain =>
            ⟨content.certificate.sender, content.kind, plain⟩, run.2) := by
  unfold decrypt
  simp only [outcome_bind, Action.outcome_stores, Action.outcome_ofExcept]
  cases hparse : SealedEnvelope.parse input with
  | error fault =>
    have hunsealed : Seal.unsealed d.stores.identity.keyPair input = .error (.ofWire fault) := by
      rw [Seal.unsealed, hparse]
      rfl
    rw [hunsealed]
    rfl
  | ok envelope =>
    have hunsealed : Seal.unsealed d.stores.identity.keyPair input =
        Seal.unwrap envelope d.stores.identity.keyPair := by
      rw [Seal.unsealed, hparse]
      rfl
    rw [hunsealed]
    rcases hunwrap : Seal.unwrap envelope d.stores.identity.keyPair with fault | ⟨identity, content⟩
    · simp only [mapError_of_ok, hunwrap]
    · simp only [mapError_of_ok, hunwrap]
      by_cases hself : content.certificate.sender = localAddress
      · simp [hself]
      · simp only [if_neg hself]
        rw [outcome_bind, Action.outcome_adapt]
        rcases outcome (decryptChecked c now root time identity content) d with
          ⟨fault | plain, d'⟩ <;> rfl

end Decrypt

/-- All that an envelope has passed when it was opened, with the certificate and
the content that were in it. -/
structure Passed (our : KeyPair) (root : PublicKey) (input : Bytes) (time : UInt64)
    (localAddress : Address) (opened : Opened) (envelope : SealedEnvelope) (identity : PublicKey)
    (content : SealedContent) : Prop where
  version : ∃ first rest, input = first :: rest ∧ first >>> 4 = 1
  parsed : SealedEnvelope.parse input = .ok envelope
  unwrapped : Seal.unwrap envelope our = .ok (identity, content)
  /-- The root signed the bytes that say what the server's key is. -/
  server : root.verifies content.certificate.signer.certificate
      content.certificate.signer.signature = true
  server_says : ServerCertificate.ofSigned content.certificate.signer.certificate
    content.certificate.signer.signature = .ok content.certificate.signer
  /-- The server signed the bytes that say who the sender is. -/
  sender : content.certificate.signer.key.verifies content.certificate.certificate
      content.certificate.signature = true
  sender_says :
      SenderCertificate.ofSigned content.certificate.certificate content.certificate.signature =
    .ok content.certificate
  fresh : time ≤ content.certificate.expires
  key : content.certificate.identityKey = identity
  address : opened.sender = content.certificate.sender
  other : opened.sender ≠ localAddress
  kind : opened.kind = content.kind

section Gate

variable {c : Config} {now : UInt64} {root : PublicKey} {input : Bytes} {time : UInt64}
  {localAddress : Address} {d d' : Device}

theorem passed_of_ok {opened : Opened}
    (h : outcome (decrypt c now root input time localAddress) d = (.ok opened, d')) :
    ∃ envelope identity content,
      Passed d.stores.identity.keyPair root input time localAddress opened envelope
        identity content := by
  obtain ⟨content, hunseal, hself, hvalid, -, hsender, hkind⟩ := decrypt_ok.mp h
  obtain ⟨envelope, hparse, hunwrap⟩ := bind_ok.mp hunseal
  obtain ⟨hserver, hsigned, hfresh⟩ := SenderCertificate.validate_ok.mp hvalid
  obtain ⟨bs, hcontent⟩ := Seal.unwrap_ok hunwrap
  have hsays := SealedContent.parse_ok hcontent
  exact ⟨envelope, _, content, {
    version := SealedEnvelope.parse_ok (mapError_ok.mp hparse)
    parsed := mapError_ok.mp hparse
    unwrapped := hunwrap
    server := hserver
    server_says := (SenderCertificate.ofSigned_ok hsays).2.2
    sender := hsigned
    sender_says := hsays
    fresh := hfresh
    key := rfl
    address := hsender
    other := hsender ▸ hself
    kind := hkind }⟩

theorem error_of_unsealed {identity : PublicKey} {content : SealedContent}
    (hunsealed : Seal.unsealed d.stores.identity.keyPair input = .ok (identity, content))
    {fault : SealedError}
    (h : outcome (decrypt c now root input time localAddress) d = (.error fault, d')) :
    fault = .selfSend ∧ content.certificate.sender = localAddress ∨
      ∃ source, fault = .knownSender content.certificate.sender content.kind source := by
  rw [outcome_decrypt, hunsealed] at h
  by_cases hself : content.certificate.sender = localAddress
  · simp only [if_pos hself] at h
    obtain ⟨hfault, -⟩ := Prod.mk.inj h
    exact .inl ⟨(Except.error.inj hfault).symm, hself⟩
  · simp only [if_neg hself] at h
    obtain ⟨hfault, -⟩ := Prod.mk.inj h
    rcases hresult : (outcome (decryptChecked c now root time identity content) d).1 with
      source | plain
    · rw [hresult] at hfault
      exact .inr ⟨source, (Except.error.inj hfault).symm⟩
    · rw [hresult] at hfault
      cases hfault

theorem sameAt_decrypt {result : Except SealedError Opened}
    (h : outcome (decrypt c now root input time localAddress) d = (result, d')) {peer : Address}
    (hpeer : ∀ identity content, Seal.unsealed d.stores.identity.keyPair input =
      .ok (identity, content) → content.certificate.sender ≠ peer) :
    d.stores.SameAt d'.stores peer := by
  have hafter : d' = (outcome (decrypt c now root input time localAddress) d).2 := by rw [h]
  rw [hafter, outcome_decrypt]
  split
  · exact ⟨rfl, rfl⟩
  · next identity content hunsealed =>
    split
    · exact ⟨rfl, rfl⟩
    · exact sameAt_decryptChecked c now root time d identity (hpeer identity content hunsealed).symm

theorem stores_of_fallback {opened : Opened} (hkind : opened.kind = .fallback)
    (h : outcome (decrypt c now root input time localAddress) d = (.ok opened, d')) :
    d'.stores = d.stores := by
  obtain ⟨content, -, -, -, hcontent, -, hsame⟩ := decrypt_ok.mp h
  have hstores := stores_decryptContent_fallback c now d content.certificate.sender
    content.certificate.identityKey (hsame.symm.trans hkind)
  rwa [hcontent] at hstores

/-- Whatever a device holds and whatever it is given: what it opens has passed
both layers, both signatures, the expiry, the comparison of the keys and that of
the addresses; what it refuses before the layers are off changes nothing, and
after that the fault is that it sent the message itself, or names the certified
sender and the kind; nothing is stored about anyone but this sender; and a
fallback that is opened changes no store. -/
theorem gate {result : Except SealedError Opened}
    (h : outcome (decrypt c now root input time localAddress) d = (result, d')) :
    (∀ opened, result = .ok opened → ∃ envelope identity content,
      Passed d.stores.identity.keyPair root input time localAddress opened
        envelope identity content) ∧
    (∀ fault, Seal.unsealed d.stores.identity.keyPair input = .error fault →
      result = .error fault ∧ d' = d) ∧
    (∀ identity content fault,
      Seal.unsealed d.stores.identity.keyPair input = .ok (identity, content) →
      result = .error fault → fault = .selfSend ∧ content.certificate.sender = localAddress ∨
        ∃ source, fault = .knownSender content.certificate.sender content.kind source) ∧
    (∀ peer, (∀ identity content,
      Seal.unsealed d.stores.identity.keyPair input = .ok (identity, content) →
        content.certificate.sender ≠ peer) →
      d'.stores.sessions.get? peer = d.stores.sessions.get? peer ∧
        d'.stores.identity.known.get? peer = d.stores.identity.known.get? peer) ∧
    ∀ opened, result = .ok opened → opened.kind = .fallback → d'.stores = d.stores := by
  refine ⟨?_, ?_, ?_, fun peer hpeer => sameAt_decrypt h hpeer, ?_⟩
  · rintro opened rfl
    exact passed_of_ok h
  · intro fault hsealed
    rw [outcome_decrypt, hsealed] at h
    obtain ⟨rfl, rfl⟩ := Prod.mk.inj h
    exact ⟨rfl, rfl⟩
  · rintro identity content fault hunsealed rfl
    exact error_of_unsealed hunsealed h
  · rintro opened rfl hkind
    exact stores_of_fallback hkind h

omit [Suite] in
/-- In the last millisecond of her certificate Mallory is let through, and only
what is stored for her changes. -/
theorem gate_resealed :
    ∃ d' envelope identity content,
      outcome (@decrypt Small.suite {} 0 default
          (Small.resealed Small.mallory (Small.device 50) (Small.greeting {})) 9 Small.bob)
          Small.publisher =
        (.ok ⟨Small.mallory, .preKey, [104, 105]⟩, d') ∧
      @Passed Small.suite Small.publisher.stores.identity.keyPair default
        (Small.resealed Small.mallory (Small.device 50) (Small.greeting {})) 9 Small.bob
        ⟨Small.mallory, .preKey, [104, 105]⟩ envelope identity content ∧
      d'.stores.identity.known.get? Small.alice =
        Small.publisher.stores.identity.known.get? Small.alice := by
  let := Small.suite
  have hok : (outcome (decrypt {} 0 default
      (Small.resealed Small.mallory (Small.device 50) (Small.greeting {})) 9 Small.bob)
      Small.publisher).1 =
      .ok ⟨Small.mallory, .preKey, [104, 105]⟩ := by decide +kernel
  obtain ⟨d', hd⟩ := outcome_of_result hok
  obtain ⟨hpassed, -, -, hothers, -⟩ := gate hd
  obtain ⟨envelope, identity, content, h⟩ := hpassed _ rfl
  have hmallory : ∀ identity content, Seal.unsealed Small.publisher.stores.identity.keyPair
      (Small.resealed Small.mallory (Small.device 50) (Small.greeting {})) =
        .ok (identity, content) →
      content.certificate.sender ≠ Small.alice := by
    intro identity' content' hunsealed
    rw [Seal.unsealed, h.parsed] at hunsealed
    obtain ⟨rfl, rfl⟩ := Prod.mk.inj (Except.ok.inj (h.unwrapped.symm.trans hunsealed))
    rw [← h.address]
    decide
  exact ⟨d', envelope, identity, content, hd, h, (hothers Small.alice hmallory).2⟩

end Gate

end SealedEngine

end DoubleRatchet
