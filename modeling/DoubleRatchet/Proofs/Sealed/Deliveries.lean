import DoubleRatchet.Proofs.Sealed.Pinning

/-!
# Messages that reach a session

A message of a session comes as it is or in a sealed envelope. Once all that
surrounds it is in order, opening the envelope succeeds if and only if the
engine reads the message, and does the same to the stores. Main statement:
`Call.reads_perform`.
-/
namespace DoubleRatchet

variable [Suite]

/-- Whether a call succeeds. -/
def Call.succeeds (d : Device) : Call → Bool
  | operation c op => (outcome (op.act c) d).1.isOk
  | sealFor destination certificate plain fallback =>
    (outcome (SealedEngine.encrypt destination certificate plain fallback) d).1.isOk
  | openSealed c now root input time localAddress =>
    (outcome (SealedEngine.decrypt c now root input time localAddress) d).1.isOk

/-- The message of a session that an envelope brings, with its sender, once all that
surrounds it is in order. -/
def SealedEngine.delivered (d : Device) (root : PublicKey) (input : Bytes) (time : UInt64)
    (localAddress : Address) :
    Option (Address × Message) :=
  match Seal.unsealed d.stores.identity.keyPair input with
  | .error _ => none
  | .ok (identity, content) =>
    if content.certificate.sender ≠ localAddress ∧ (content.certificate.validate root time).isOk ∧
        content.certificate.identityKey = identity then
      content.message?.map fun m => (content.certificate.sender, m)
    else none

/-- The operation by which a call reads a message of a session. -/
def Call.reads? (d : Device) : Call → Option (Config × Operation)
  | operation c (.decrypt now peer m) => some (c, .decrypt now peer m)
  | openSealed c now root input time localAddress =>
    (SealedEngine.delivered d root input time localAddress).map fun (sender, m) =>
      (c, .decrypt now sender m)
  | _ => none

namespace SealedEngine

section Delivered

variable (c : Config) (now : UInt64) {d : Device} {root : PublicKey} {input : Bytes} {time : UInt64}
  {localAddress sender : Address} {m : Message}

theorem delivered_eq_some : delivered d root input time localAddress = some (sender, m) ↔
    ∃ content,
    Seal.unsealed d.stores.identity.keyPair input = .ok (content.certificate.identityKey, content) ∧
      content.certificate.sender ≠ localAddress ∧ content.certificate.validate root time = .ok () ∧
      content.message? = some m ∧ content.certificate.sender = sender := by
  unfold delivered
  constructor
  · intro h
    split at h
    · cases h
    · next identity content hunseal =>
      split at h
      · next hgate =>
        obtain ⟨hself, hvalid, rfl⟩ := hgate
        obtain ⟨m', hm, hpair⟩ := Option.map_eq_some_iff.mp h
        obtain ⟨hsender, rfl⟩ := Prod.mk.inj hpair
        refine ⟨content, hunseal, hself, ?_, hm, hsender⟩
        cases hresult : content.certificate.validate root time with
        | error fault =>
          rw [hresult] at hvalid
          cases hvalid
        | ok => rfl
      · cases h
  · rintro ⟨content, hunseal, hself, hvalid, hm, rfl⟩
    simp [hunseal, hself, hvalid, hm, Except.isOk, Except.toBool]

/-- A message that is delivered goes to the engine, and it is the engine's result that counts. -/
theorem decrypt_delivered (h : delivered d root input time localAddress = some (sender, m)) :
    (outcome (decrypt c now root input time localAddress) d).2.stores =
        (outcome (Engine.decrypt c now sender m) d).2.stores ∧
      (outcome (decrypt c now root input time localAddress) d).1.isOk =
        (outcome (Engine.decrypt c now sender m) d).1.isOk := by
  obtain ⟨content, hunseal, hself, hvalid, hm, rfl⟩ := delivered_eq_some.mp h
  have hkind : content.kind ≠ .fallback := by
    intro hkind
    rw [SealedContent.message?, hkind] at hm
    cases hm
  rcases hengine : outcome (Engine.decrypt c now content.certificate.sender m) d with
    ⟨fault | plain, d'⟩
  · rcases hrun : outcome (decrypt c now root input time localAddress) d with ⟨fault' | opened, d''⟩
    · exact ⟨(decrypt_error hrun).trans (Engine.decrypt_error hengine).symm, rfl⟩
    · obtain ⟨content', hunseal', -, -, hcontent, -, -⟩ := decrypt_ok.mp hrun
      obtain ⟨-, rfl⟩ := Prod.mk.inj (Except.ok.inj (hunseal.symm.trans hunseal'))
      obtain ⟨m', hm', hdecrypt⟩ := (decryptContent_ok hkind).mp hcontent
      obtain rfl := Option.some_inj.mp (hm.symm.trans hm')
      cases hengine.symm.trans hdecrypt
  · have hrun : outcome (decrypt c now root input time localAddress) d =
        (.ok ⟨content.certificate.sender, content.kind, plain⟩, d') :=
      decrypt_ok.mpr ⟨content, hunseal, hself, hvalid,
        (decryptContent_ok hkind).mpr ⟨m, hm, hengine⟩, rfl, rfl⟩
    rw [hrun]
    exact ⟨rfl, rfl⟩

/-- Without a message the stores stay. -/
theorem decrypt_undelivered (h : delivered d root input time localAddress = none) :
    (outcome (decrypt c now root input time localAddress) d).2.stores = d.stores := by
  rcases hrun : outcome (decrypt c now root input time localAddress) d with ⟨fault | opened, d'⟩
  · exact decrypt_error hrun
  · obtain ⟨content, hunseal, hself, hvalid, hcontent, -, -⟩ := decrypt_ok.mp hrun
    by_cases hkind : content.kind = .fallback
    · have hstores := stores_decryptContent_fallback c now d content.certificate.sender
        content.certificate.identityKey hkind
      rwa [hcontent] at hstores
    · obtain ⟨m, hm, -⟩ := (decryptContent_ok hkind).mp hcontent
      cases h.symm.trans (delivered_eq_some.mpr ⟨_, hunseal, hself, hvalid, hm, rfl⟩)

end Delivered

end SealedEngine

/-- A call that reads a message does to the stores what the operation does, and
succeeds if that does. -/
theorem Call.reads_perform {d : Device} {call : Call} {c : Config} {op : Operation}
    (h : call.reads? d = some (c, op)) :
    (call.perform d).stores = (op.perform c d).stores ∧
      call.succeeds d = (outcome (op.act c) d).1.isOk := by
  cases call with
  | operation c' op' =>
    cases op' <;> cases h
    exact ⟨rfl, rfl⟩
  | sealFor => cases h
  | openSealed c' now root input time localAddress =>
    obtain ⟨⟨sender, m⟩, hdelivered, hpair⟩ := Option.map_eq_some_iff.mp h
    obtain ⟨rfl, rfl⟩ := Prod.mk.inj hpair
    obtain ⟨hstores, hok⟩ := SealedEngine.decrypt_delivered c' now hdelivered
    refine ⟨hstores, hok.trans ?_⟩
    rw [Operation.act, outcome_map]
    cases (outcome (Engine.decrypt c' now sender m) d).1 <;> rfl

end DoubleRatchet
