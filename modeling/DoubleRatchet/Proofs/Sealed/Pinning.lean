import DoubleRatchet.Proofs.Engine.Pinning
import DoubleRatchet.Proofs.Sealed.Operations

/-!
# Identities stay pinned

A device is asked for session operations and for sealed messages in any order,
and some of what it is asked fails. A sealed message comes down to at most one
operation of a session, so that what holds of these holds of all calls.
Main statement: `identities_pinned`.
-/
namespace DoubleRatchet

/-- What a device may be asked to do with sealed messages or without, each time under
some configuration. -/
inductive Call
  | operation (c : Config) (op : Operation)
  | sealFor (destination : Address) (certificate : SenderCertificate)
      (plain : Bytes) (fallback : Bool)
  | openSealed (c : Config) (now : UInt64) (root : PublicKey) (input : Bytes) (time : UInt64)
      (localAddress : Address)

variable [Suite]

/-- The device after a call, whether it succeeded or not. -/
def Call.perform (d : Device) : Call → Device
  | operation c op => op.perform c d
  | sealFor destination certificate plain fallback =>
    (outcome (SealedEngine.encrypt destination certificate plain fallback) d).2
  | openSealed c now root input time localAddress =>
    (outcome (SealedEngine.decrypt c now root input time localAddress) d).2

/-- The device after a number of calls. -/
def Device.serve (d : Device) (calls : List Call) : Device := calls.foldl Call.perform d

namespace SealedEngine

/-- Sealing a fallback leaves the stores alone. -/
theorem keeps_encrypt_fallback (destination : Address) (certificate : SenderCertificate)
    (plain : Bytes) :
    Keeps Device.stores (encrypt destination certificate plain true) := by
  refine .bind (fun _ => rfl) fun stores => ?_
  cases stores.identity.known.get? destination with
  | none => exact fun _ => rfl
  | some their =>
    have hcontent : Keeps Device.stores (makeContent destination their plain true) :=
      .bind (fun _ => rfl) fun _ => .bind (fun _ => rfl) fun _ =>
        .bind (fun _ => rfl) fun _ _ => rfl
    exact hcontent.bind fun _ => .bind (fun _ => rfl) fun _ => .bind (fun _ => rfl) fun _ _ => rfl

/-- Sealing a message touches the stores as encrypting it does, or not at all. -/
theorem stores_encrypt (destination : Address) (certificate : SenderCertificate) (plain : Bytes)
    (fallback : Bool) (d : Device) :
    (outcome (encrypt destination certificate plain fallback) d).2.stores = d.stores ∨
      (outcome (encrypt destination certificate plain fallback) d).2.stores =
        (outcome (Engine.encrypt destination plain) d).2.stores := by
  cases fallback with
  | true => exact .inl (keeps_encrypt_fallback destination certificate plain d)
  | false =>
    unfold encrypt
    rw [outcome_bind, Action.outcome_stores]
    cases hknown : d.stores.identity.known.get? destination with
    | none => exact .inl (by simp [hknown])
    | some their =>
      right
      simp only [hknown]
      refine (Keeps.after
        (fun _ => .bind (fun _ => rfl) fun _ => .bind (fun _ => rfl) fun _ _ => rfl) _ d).trans ?_
      refine (Keeps.after (fun _ _ => rfl) _ d).trans ?_
      rw [Action.outcome_adapt]

/-- Unsealing a message touches the stores as decrypting some message does, or not at all. -/
theorem stores_decrypt (c : Config) (now : UInt64) (root : PublicKey) (input : Bytes)
    (time : UInt64) (localAddress : Address) (d : Device) :
    (outcome (decrypt c now root input time localAddress) d).2.stores = d.stores ∨
      ∃ sender m, (outcome (decrypt c now root input time localAddress) d).2.stores =
        (outcome (Engine.decrypt c now sender m) d).2.stores := by
  rcases hrun : outcome (decrypt c now root input time localAddress) d with ⟨fault | opened, d'⟩
  · exact .inl (decrypt_error hrun)
  · obtain ⟨content, -, -, -, hcontent, -, -⟩ := decrypt_ok.mp hrun
    by_cases hkind : content.kind = .fallback
    · have hstores := stores_decryptContent_fallback c now d content.certificate.sender
        content.certificate.identityKey hkind
      rw [hcontent] at hstores
      exact .inl hstores
    · obtain ⟨m, -, hdecrypt⟩ := (decryptContent_ok hkind).mp hcontent
      exact .inr ⟨content.certificate.sender, m, by rw [hdecrypt]⟩

end SealedEngine

/-- A call leaves the stores as they were, or as one operation leaves them. -/
theorem Call.stores_perform (d : Device) (call : Call) :
    (call.perform d).stores = d.stores ∨ ∃ c op,
      (call.perform d).stores = (Operation.perform c d op).stores := by
  cases call with
  | operation c op => exact .inr ⟨c, op, rfl⟩
  | sealFor destination certificate plain fallback =>
    refine (SealedEngine.stores_encrypt destination certificate plain fallback d).imp_right
      fun hencrypt => ?_
    exact ⟨{}, .encrypt destination plain, hencrypt⟩
  | openSealed c now root input time localAddress =>
    refine (SealedEngine.stores_decrypt c now root input time localAddress d).imp_right ?_
    rintro ⟨sender, m, hdecrypt⟩
    exact ⟨c, .decrypt now sender m, hdecrypt⟩

/-- Every call settles the stores as an operation does. -/
theorem settles_call (d : Device) (call : Call) : d.stores.Settles (call.perform d).stores := by
  rcases call.stores_perform d with hsame | ⟨c, op, hop⟩
  · exact .same (by rw [hsame]) (by rw [hsame])
  · rw [hop]
    exact settles_perform c d op

theorem Device.pinned_serve {d : Device} (h : d.stores.Pinned) (calls : List Call) :
    (d.serve calls).stores.Pinned := by
  induction calls generalizing d with
  | nil => exact h
  | cons call calls ih => exact ih ((settles_call d call).pinned h)

theorem Device.keepsPins_serve (d : Device) (calls : List Call) :
    d.stores.KeepsPins (d.serve calls).stores := by
  induction calls generalizing d with
  | nil => exact fun _ _ => id
  | cons call calls ih => exact (settles_call d call).keepsPins.trans (ih _)

/-- Whatever a new device has been asked for, a peer with a record has a pinned
identity, which every state of the record is with, current or archived; and
whatever it is asked for from then on, a pinned identity stays. -/
theorem identities_pinned (keyPair : KeyPair) (registrationId : UInt32) (entropy : Entropy)
    (calls : List Call) :
    let d := (Device.new keyPair registrationId entropy).serve calls
    (∀ peer, (d.stores.loadSession peer).isFresh = false →
      ∃ pinned, d.stores.identity.known.get? peer = some pinned ∧
        ∀ t ∈ d.states peer, t.remoteIdentity = pinned) ∧
    ∀ peer pinned, d.stores.identity.known.get? peer = some pinned →
      ∀ more, (d.serve more).stores.identity.known.get? peer = some pinned := by
  intro d
  have hpinned : d.stores.Pinned :=
    Device.pinned_serve (Stores.pinned_create keyPair registrationId) calls
  refine ⟨fun peer hrecord => ?_, fun peer pinned h more => d.keepsPins_serve more peer pinned h⟩
  obtain ⟨s, hs⟩ := Record.isFresh_eq_false_iff.mp hrecord
  refine ⟨s.remoteIdentity, hpinned peer s hs, fun t ht => ?_⟩
  exact Option.some_inj.mp ((hpinned peer t ht).symm.trans (hpinned peer s hs))

namespace Small

/-- The publisher makes pre-keys and unseals what Mallory sealed, a message of another one. -/
def visit : List Call :=
  [.operation {} (.generate 1 1 2 0),
    .openSealed {} 0 default (resealed mallory (device 50) (greeting {})) 0 bob]

def visited : Device := @Device.serve suite (device 101) visit

end Small

omit [Suite] in
/-- The identity that the message presents stays pinned for Mallory's address. -/
theorem identities_pinned_visited :
    (Small.visited.stores.loadSession Small.mallory).isFresh = false ∧
    ∃ pinned, Small.visited.stores.identity.known.get? Small.mallory = some pinned ∧
      (∀ t ∈ Small.visited.states Small.mallory, t.remoteIdentity = pinned) ∧
      ∀ more,
        (@Device.serve Small.suite Small.visited more).stores.identity.known.get? Small.mallory =
          some pinned := by
  have hrecord : (Small.visited.stores.loadSession Small.mallory).isFresh = false := by
    decide +kernel
  have hserved : Small.visited = @Device.serve Small.suite (.new _ _ _) Small.visit := rfl
  obtain ⟨hpinned, hkeeps⟩ := @identities_pinned Small.suite _ _ _ Small.visit
  rw [← hserved] at hpinned hkeeps
  obtain ⟨pinned, hknown, hstates⟩ := hpinned Small.mallory hrecord
  exact ⟨hrecord, pinned, hknown, hstates, hkeeps Small.mallory pinned hknown⟩

end DoubleRatchet
