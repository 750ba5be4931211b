import DoubleRatchet.Proofs.Engine.Readers
import DoubleRatchet.Proofs.Sealed.Operations

/-!
# Whom a sealed message is attributed to

The certificate in an envelope is for the key that sealed it, and gives the
address under which the message inside is read. Nothing ties the message to
that key: whoever is certified may seal what another one wrote. The session
that reads it is one with the certified identity exactly when this identity was
pinned before, or none was and it is the one that the message presents.
-/
namespace DoubleRatchet

namespace SealedEngine

/-- A message counts as one of a certified identity: the session that read it
is with this identity, which is pinned for the sender. -/
structure Attributed (certified : PublicKey) (sender : Address) (x : Engine.Reading)
    (d' : Device) : Prop where
  reader : x.after.remoteIdentity = certified
  pinned : d'.stores.identity.known.get? sender = some certified

variable [Suite]

/-- A sealed message of a session is attributed to the identity in its
certificate exactly when the state that reads it is of this identity, and the
identity was pinned before or is the one that the message presents first. -/
theorem attributed_iff {c : Config} {now : UInt64} {root : PublicKey} {input : Bytes}
    {time : UInt64} {localAddress : Address} {d d' : Device} {opened : Opened}
    (h : outcome (decrypt c now root input time localAddress) d = (.ok opened, d'))
    (session : opened.kind ≠ .fallback) :
    ∃ content m x,
      Seal.unsealed d.stores.identity.keyPair input =
        .ok (content.certificate.identityKey, content) ∧
      content.certificate.validate root time = .ok () ∧ content.certificate.sender = opened.sender ∧
      content.message? = some m ∧ Engine.reading? c now opened.sender m d = some x ∧
      (d'.stores.loadSession opened.sender).current = some x.after ∧
      (Attributed content.certificate.identityKey opened.sender x d' ↔
        x.before.remoteIdentity = content.certificate.identityKey ∧
          (d.stores.identity.known.get? opened.sender = some content.certificate.identityKey ∨
            d.stores.identity.known.get? opened.sender = none ∧
              Engine.presented x.before m = content.certificate.identityKey)) := by
  obtain ⟨content, hunseal, -, hvalid, hcontent, hsender, hkind⟩ := decrypt_ok.mp h
  rw [hkind] at session
  rw [← hsender] at hcontent
  obtain ⟨m, hm, hdecrypt⟩ := (decryptContent_ok session).mp hcontent
  obtain ⟨x, hopen, hreads, htrusted, hstores⟩ := Engine.decrypt_ok.mp hdecrypt
  obtain ⟨e₁, -, hread⟩ := hreads.reads
  have hsame : x.after.remoteIdentity = x.before.remoteIdentity := hread.sameSession.remoteIdentity
  have hpresented : Engine.presented x.after m = Engine.presented x.before m := by
    cases m with
    | ratchet => exact hsame
    | preKey => rfl
  have hpinned :
      d'.stores.identity.known.get? opened.sender = some (Engine.presented x.before m) := by
    rw [hstores, Stores.known_committed, if_pos rfl, hpresented]
  refine ⟨content, m, x, hunseal, hvalid, hsender.symm, hm,
    Engine.reading?_eq_some.mpr ⟨hopen, opened.plain, _, hreads⟩, ?_, ?_⟩
  · rw [hstores, Stores.loadSession_withoutUsed, Stores.loadSession_committed_self]
    rfl
  rw [hpresented, Stores.isTrusted_iff] at htrusted
  constructor
  · rintro ⟨hreader, hafter⟩
    rw [hpinned, Option.some_inj] at hafter
    refine ⟨hsame.symm.trans hreader, ?_⟩
    rw [hafter] at htrusted ⊢
    exact htrusted.symm.imp_right fun hnone => ⟨hnone, rfl⟩
  · rintro ⟨hreader, hbefore⟩
    refine ⟨hsame.trans hreader, ?_⟩
    rw [hpinned]
    rcases hbefore with hbefore | ⟨-, hbefore⟩
    · rcases htrusted with hnone | hsome
      · rw [hnone] at hbefore
        cases hbefore
      · rw [← hsome, hbefore]
    · rw [hbefore]

omit [Suite] in
/-- Mallory seals what another one wrote, and it is taken for hers: the session
that is stored under her address is not with the identity in her certificate. -/
theorem attributed_iff_resealed :
    ∃ d' content x,
      outcome (@decrypt Small.suite {} 0 default
          (Small.resealed Small.mallory (Small.device 50) (.preKey Small.second)) 0 Small.bob)
          Small.publisher =
        (.ok ⟨Small.mallory, .preKey, [109]⟩, d') ∧
      @Seal.unsealed Small.suite Small.publisher.stores.identity.keyPair
          (Small.resealed Small.mallory (Small.device 50) (.preKey Small.second)) =
        .ok (content.certificate.identityKey, content) ∧
      (d'.stores.loadSession Small.mallory).current = some x.after ∧
      ¬Attributed content.certificate.identityKey Small.mallory x d' := by
  let := Small.suite
  have hok : (outcome (decrypt {} 0 default
      (Small.resealed Small.mallory (Small.device 50) (.preKey Small.second)) 0 Small.bob)
      Small.publisher).1 =
      .ok ⟨Small.mallory, .preKey, [109]⟩ := by decide +kernel
  have hwraps : (Seal.unsealed Small.publisher.stores.identity.keyPair
      (Small.resealed Small.mallory (Small.device 50) (.preKey Small.second))).toOption.map
        (fun p => (p.1, p.2.message?)) =
      some ((Small.device 50).stores.identity.keyPair.publicKey, some (.preKey Small.second)) := by
        decide +kernel
  have hfirst : Small.publisher.stores.identity.known.get? Small.mallory = none := by decide +kernel
  have hother : Small.second.identityKey ≠ (Small.device 50).stores.identity.keyPair.publicKey := by
    decide +kernel
  obtain ⟨d', hd⟩ := outcome_of_result hok
  obtain ⟨content, m, x, hunseal, -, -, hm, -, hcurrent, hiff⟩ := attributed_iff hd (by decide)
  simp only [hunseal, Except.toOption, Option.map_some, hm, Option.some_inj,
    Prod.mk.injEq] at hwraps
  obtain ⟨hcertified, rfl⟩ := hwraps
  refine ⟨d', content, x, hd, hunseal, hcurrent, fun hattributed => ?_⟩
  obtain ⟨-, hpinned | ⟨-, hpresented⟩⟩ := hiff.mp hattributed
  · rw [hfirst] at hpinned
    cases hpinned
  · exact hother (hpresented.trans hcertified)

end SealedEngine

end DoubleRatchet
