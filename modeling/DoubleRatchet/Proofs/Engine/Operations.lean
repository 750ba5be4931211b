import DoubleRatchet.Proofs.Session.Agreement
import DoubleRatchet.Proofs.Session.Trial
import DoubleRatchet.Proofs.Wire.Message
import DoubleRatchet.Session.Engine

/-!
# Operations of the engine

What each operation of a device does when it succeeds, and that a failure of it
leaves the stores alone. A message of either kind is read in a record that
`opened` gives, by the state that `reading?` gives.
-/
namespace DoubleRatchet

namespace Stores

@[simp] theorem loadSession_storeSession (s : Stores) (peer other : Address) (r : Record) :
    (s.storeSession peer r).loadSession other =
      if other = peer then r else s.loadSession other := by
  simp only [loadSession, storeSession, Table.get?_insert]
  split <;> rfl

@[simp] theorem loadSession_saveIdentity (s : Stores) (peer other : Address) (key : PublicKey) :
    (s.saveIdentity peer key).loadSession other = s.loadSession other := rfl

@[simp] theorem loadSession_removePreKey (s : Stores) (id : UInt32) (peer : Address) :
    (s.removePreKey id).loadSession peer = s.loadSession peer := rfl

@[simp] theorem isTrusted_storeSession (s : Stores) (peer other : Address) (r : Record)
    (key : PublicKey) :
    (s.storeSession peer r).isTrusted other key = s.isTrusted other key := rfl

@[simp] theorem isTrusted_removePreKey (s : Stores) (id : UInt32) (peer : Address)
    (key : PublicKey) :
    (s.removePreKey id).isTrusted peer key = s.isTrusted peer key := rfl

/-- Whoever is pinned is trusted, and nobody else is. -/
theorem isTrusted_saveIdentity_self (s : Stores) (peer : Address) (pinned key : PublicKey) :
    (s.saveIdentity peer pinned).isTrusted peer key = true ↔ key = pinned := by
  simp [isTrusted, saveIdentity, Table.get?_insert, eq_comm]

/-- Removes the one-time pre-key that was used up, if one was. -/
def withoutUsed (s : Stores) (used : Option UInt32) : Stores :=
  match used with
  | some id => s.removePreKey id
  | none => s

@[simp] theorem loadSession_withoutUsed (s : Stores) (used : Option UInt32) (peer : Address) :
    (s.withoutUsed used).loadSession peer = s.loadSession peer := by
  cases used <;> rfl

@[simp] theorem isTrusted_withoutUsed (s : Stores) (used : Option UInt32) (peer : Address)
    (key : PublicKey) :
    (s.withoutUsed used).isTrusted peer key = s.isTrusted peer key := by
  cases used <;> rfl

/-- The stores after a record is committed under an identity. -/
def committed (s : Stores) (peer : Address) (identity : PublicKey) (r : Record) : Stores :=
  (s.saveIdentity peer identity).storeSession peer r

@[simp] theorem loadSession_committed (s : Stores) (peer other : Address) (identity : PublicKey)
    (r : Record) :
    (s.committed peer identity r).loadSession other =
      if other = peer then r else s.loadSession other := by
  simp [committed]

/-- Whoever is committed to is trusted from then on. -/
@[simp] theorem isTrusted_committed_self (s : Stores) (peer : Address) (identity : PublicKey)
    (r : Record) :
    (s.committed peer identity r).isTrusted peer identity = true := by
  rw [committed, isTrusted_storeSession]
  exact (isTrusted_saveIdentity_self s peer identity identity).mpr rfl

theorem loadSession_committed_self (s : Stores) (peer : Address) (identity : PublicKey)
    (r : Record) :
    (s.committed peer identity r).loadSession peer = r := by
  simp

theorem isTrusted_iff {s : Stores} {peer : Address} {key : PublicKey} :
    s.isTrusted peer key = true ↔
      s.identity.known.get? peer = none ∨ s.identity.known.get? peer = some key := by
  unfold isTrusted
  cases s.identity.known.get? peer <;> simp

/-- A commit pins the identity for the peer and leaves those of others. -/
theorem known_committed (s : Stores) (peer other : Address) (identity : PublicKey) (r : Record)
    (used : Option UInt32) :
    ((s.committed peer identity r).withoutUsed used).identity.known.get? other =
      if other = peer then some identity else s.identity.known.get? other := by
  cases used <;> exact Table.get?_insert _ _ _ _

end Stores

namespace Engine

@[simp] theorem outcome_checkTrust (peer : Address) (identity : PublicKey) (d : Device) :
    outcome (checkTrust peer identity) d =
      if d.stores.isTrusted peer identity then (.ok (), d)
      else (.error (.session (.untrustedIdentity peer)), d) := by
  unfold checkTrust
  rw [outcome_bind, Action.outcome_stores]
  cases h : d.stores.isTrusted peer identity <;> simp [h]

theorem keeps_checkTrust {α : Type} (view : Device → α) (peer : Address) (identity : PublicKey) :
    Keeps view (checkTrust peer identity) := by
  intro d
  rw [outcome_checkTrust]
  split <;> rfl

@[simp] theorem outcome_commit (peer : Address) (identity : PublicKey) (r : Record) (d : Device) :
    outcome (commit peer identity r) d =
      (.ok (), { d with stores := d.stores.committed peer identity r }) := rfl

/-- The identity that has to be trusted for a message: that of the state for an
ordinary one, the one it names for a first one. -/
def presented (after : State) : Message → PublicKey
  | .ratchet _ => after.remoteIdentity
  | .preKey m => m.identityKey

/-- How a message is read: in which record, and by which state of it. -/
structure Reading where
  record : Record
  used : Option UInt32
  position : Nat
  before : State
  after : State
deriving DecidableEq

/-- The record that is stored once a message is read. -/
def Reading.stored (c : Config) (x : Reading) : Record :=
  ⟨some x.after, x.record.others c.maxArchivedStates x.position⟩

@[simp] theorem Reading.states_stored (c : Config) (x : Reading) :
    (x.stored c).states = x.after :: x.record.others c.maxArchivedStates x.position := rfl

variable [Suite]

/-- A first message is read in the record as it is if the record knows its base
key, else with the responder's state made current. -/
theorem prepare_ok {c : Config} {s : Stores} {peer : Address} {r r' : Record} {m : PreKeyMessage}
    {used : Option UInt32} :
    prepare c s peer r m = .ok (r', used) ↔ s.isTrusted peer m.identityKey = true ∧
      (r.hasState m.version m.baseKey = true ∧ r' = r ∧ used = none ∨
        r.hasState m.version m.baseKey = false ∧
          ∃ own, respond s m = .ok own ∧ r' = r.promote own c.maxArchivedStates ∧
          used = m.preKeyId) := by
  unfold prepare
  cases htrust : s.isTrusted peer m.identityKey
  · simp [bind, Except.bind, throw, throwThe, MonadExceptOf.throw]
  · cases hknown : r.hasState m.version m.baseKey
    · simp only [Bool.not_true, Bool.false_eq_true, if_false, bind_ok, pure, Except.pure]
      simp [eq_comm]
    · simp [pure, Except.pure, eq_comm]

theorem respond_ok {s : Stores} {m : PreKeyMessage} {own : State} :
    respond s m = .ok own ↔
      ∃ signed oneTime agreed, s.loadSignedPreKey m.signedPreKeyId = .ok signed ∧
      m.preKeyId.mapM s.loadPreKey = .ok oneTime ∧
      Responder.state ⟨s.identity.keyPair, signed.keyPair,
        oneTime.map PreKeyRecord.keyPair, signed.keyPair, m.identityKey, m.baseKey⟩ = .ok agreed ∧
      own = { agreed with
        localRegistrationId := s.identity.registrationId, remoteRegistrationId :=
          m.registrationId } := by
  unfold respond
  simp only [bind_ok, mapError_ok, pure, Except.pure, Except.ok.injEq]
  constructor
  · rintro ⟨signed, hsigned, oneTime, honeTime, agreed, hagreed, rfl⟩
    exact ⟨signed, oneTime, agreed, hsigned, honeTime, hagreed, rfl⟩
  · rintro ⟨signed, oneTime, agreed, hsigned, honeTime, hagreed, rfl⟩
    exact ⟨signed, hsigned, oneTime, honeTime, agreed, hagreed, rfl⟩

/-- The responder's state is new, and names the session as the message does. -/
theorem respond_new {s : Stores} {m : PreKeyMessage} {own : State} (h : respond s m = .ok own) :
    own.New ∧ own.baseKey = m.baseKey ∧ own.remoteIdentity = m.identityKey ∧
      own.receivers = [] := by
  obtain ⟨signed, oneTime, agreed, -, -, hagreed, rfl⟩ := respond_ok.mp h
  obtain ⟨secrets, -, rfl⟩ := Responder.state_ok.mp hagreed
  exact ⟨⟨rfl, rfl, .inl rfl⟩, rfl, rfl, rfl⟩

/-- It sends on the signed pre-key that the message names. -/
theorem respond_sends {s : Stores} {m : PreKeyMessage} {own : State} (h : respond s m = .ok own) :
    ∃ signed, s.signedPreKeys.get? m.signedPreKeyId = some signed ∧
      own.sender.keyPair = signed.keyPair := by
  obtain ⟨signed, oneTime, agreed, hload, -, hagreed, rfl⟩ := respond_ok.mp h
  obtain ⟨secrets, -, rfl⟩ := Responder.state_ok.mp hagreed
  refine ⟨signed, ?_, rfl⟩
  unfold Stores.loadSignedPreKey at hload
  split at hload
  · next hget => rw [hget, Except.ok.inj hload]
  · cases hload

theorem encrypt_ok {peer : Address} {plain : Bytes} {d d' : Device} {m : Message} :
    outcome (encrypt peer plain) d = (.ok m, d') ↔
      ∃ s after, (d.stores.loadSession peer).current = some s ∧ s.encrypt plain = .ok (m, after) ∧
        d.stores.isTrusted peer s.remoteIdentity = true ∧
        d' = { d with
          stores := d.stores.committed peer s.remoteIdentity
            ⟨some after, (d.stores.loadSession peer).previous⟩ } := by
  unfold encrypt
  rw [outcome_bind, Action.outcome_stores]
  cases hs : (d.stores.loadSession peer).current with
  | none => simp [hs]
  | some s =>
    cases hm : s.encrypt plain with
    | error fault => simp [hs, hm, outcome_bind]
    | ok result =>
      obtain ⟨message, after⟩ := result
      cases ht : d.stores.isTrusted peer s.remoteIdentity with
      | false => simp [hs, hm, ht, outcome_bind]
      | true =>
        simp only [hs, hm, ht, outcome_bind, Action.outcome_ofExcept, outcome_checkTrust,
          if_true, outcome_commit, outcome_pure, Prod.mk.injEq, Except.ok.injEq, Option.some.injEq]
        constructor
        · rintro ⟨rfl, rfl⟩
          exact ⟨s, after, rfl, hm, ht, rfl⟩
        · rintro ⟨s', after', rfl, hm', -, rfl⟩
          obtain ⟨rfl, rfl⟩ := Prod.mk.inj (Except.ok.inj (hm.symm.trans hm'))
          exact ⟨rfl, rfl⟩

/-- A message that is not written leaves everything as it was. -/
theorem encrypt_error {peer : Address} {plain : Bytes} {d d' : Device} {fault : SessionError}
    (h : outcome (encrypt peer plain) d = (.error fault, d')) : d' = d := by
  have hatomic : Atomic id (encrypt peer plain) := by
    refine Keeps.then_atomic (fun _ => rfl) fun stores => ?_
    cases hs : (stores.loadSession peer).current with
    | none =>
      simp only [hs]
      exact Keeps.atomic fun _ => rfl
    | some s =>
      simp only [hs]
      refine Keeps.then_atomic (fun _ => rfl) fun written => ?_
      refine Keeps.then_atomic (keeps_checkTrust _ _ _) fun _ => ?_
      exact atomic_of_ok fun d => ⟨written.1, _, rfl⟩
  exact hatomic _ _ _ h

/-- The record in which a message is read, and the one-time pre-key that it uses up. -/
def opened (c : Config) (s : Stores) (peer : Address) :
    Message → Except SessionError (Record × Option UInt32)
  | .ratchet _ => .ok (s.loadSession peer, none)
  | .preKey m => prepare c s peer (s.loadSession peer) m

/-- The reading of a message by a device, if there is one. -/
def reading? (c : Config) (now : UInt64) (peer : Address) (m : Message)
    (d : Device) : Option Reading :=
  match opened c d.stores peer m with
  | .error _ => none
  | .ok (record, used) =>
    match (outcome (Record.tryStates c now m.inner 0 record.states []) d.entropy).1 with
    | .error _ => none
    | .ok (position, _, after) => record.states[position]?.map fun before =>
      ⟨record, used, position, before, after⟩

theorem reading?_eq_some {c : Config} {now : UInt64} {peer : Address} {m : Message} {d : Device}
    {x : Reading} :
    reading? c now peer m d = some x ↔ opened c d.stores peer m = .ok (x.record, x.used) ∧
      ∃ plain e', x.record.Reads c now m.inner d.entropy plain x.position x.before x.after e' := by
  unfold reading?
  constructor
  · intro h
    split at h
    · cases h
    · next record used hopen =>
      split at h
      · cases h
      · next position plain after htry =>
        obtain ⟨before, hplace, rfl⟩ := Option.map_eq_some_iff.mp h
        obtain ⟨before', hreads⟩ := Record.tryStates_states_ok.mp (Prod.ext htry rfl)
        obtain rfl := Option.some_inj.mp (hreads.place.symm.trans hplace)
        exact ⟨hopen, plain, _, hreads⟩
  · rintro ⟨hopen, plain, e', hreads⟩
    have htry := Record.tryStates_states_ok.mpr ⟨x.before, hreads⟩
    simp [hopen, htry, hreads.place]

/-- The keys under which a device reads a message, if it reads it: those that the
state of its reading has for it. -/
def readingKeys? (c : Config) (now : UInt64) (peer : Address) (m : Message) (d : Device) :
    Option MessageKeys :=
  (reading? c now peer m d).bind fun x =>
    (x.before.expire c now).keysFor? m.inner.ratchetKey m.inner.counter

/-- The opened record holds the states of the stored one, and for a new base
key the responder's state. -/
theorem mem_opened {c : Config} {s : Stores} {peer : Address} {m : Message} {r : Record}
    {used : Option UInt32} {t : State} (h : opened c s peer m = .ok (r, used)) (ht : t ∈ r.states) :
    t ∈ (s.loadSession peer).states ∨ ∃ p, m = .preKey p ∧ respond s p = .ok t := by
  cases m with
  | ratchet m =>
    cases h
    exact .inl ht
  | preKey p =>
    obtain ⟨-, ⟨-, rfl, -⟩ | ⟨-, own, hown, rfl, -⟩⟩ := prepare_ok.mp h
    · exact .inl ht
    · rcases Record.mem_states_promote ht with rfl | ht
      · exact .inr ⟨p, rfl, hown⟩
      · exact .inl ht

theorem decryptRatchet_ok {c : Config} {now : UInt64} {peer : Address} {m : RatchetMessage}
    {d d' : Device} {plain : Bytes} :
    outcome (decryptRatchet c now peer m) d = (.ok plain, d') ↔
      ∃ position before after,
      (d.stores.loadSession peer).Reads c now m d.entropy plain position before after
          d'.entropy ∧
        d.stores.isTrusted peer after.remoteIdentity = true ∧
        d'.stores = d.stores.committed peer after.remoteIdentity
          ⟨some after, (d.stores.loadSession peer).others c.maxArchivedStates position⟩ := by
  unfold decryptRatchet
  rw [outcome_bind, Action.outcome_stores]
  constructor
  · intro h
    obtain ⟨⟨text, r⟩, d₁, hread, h⟩ := outcome_bind_ok.mp h
    rw [Action.outcome_attempt] at hread
    obtain ⟨hresult, rfl⟩ := Prod.mk.inj hread
    obtain ⟨position, before, after, hreads, rfl⟩ := Record.decrypt_ok.mp (Prod.ext hresult rfl)
    cases ht : d.stores.isTrusted peer after.remoteIdentity with
    | false => simp [outcome_bind, ht] at h
    | true =>
      simp [outcome_bind, ht, Except.map] at h
      obtain ⟨rfl, rfl⟩ := h
      exact ⟨position, before, after, hreads, ht, rfl⟩
  · rintro ⟨position, before, after, hreads, ht, hstores⟩
    have hread := hreads.decrypt peer
    obtain ⟨stores, entropy⟩ := d'
    simp only at hread hstores
    simp [outcome_bind, hread, ht, Except.map, hstores]

theorem decryptPreKey_ok {c : Config} {now : UInt64} {peer : Address} {m : PreKeyMessage}
    {d d' : Device} {plain : Bytes} :
    outcome (decryptPreKey c now peer m) d = (.ok plain, d') ↔
      ∃ r used position before after,
      prepare c d.stores peer (d.stores.loadSession peer) m = .ok (r, used) ∧
        r.Reads c now m.message d.entropy plain position before after d'.entropy ∧
        d'.stores = (d.stores.committed peer m.identityKey
          ⟨some after, r.others c.maxArchivedStates position⟩).withoutUsed used := by
  unfold decryptPreKey
  rw [outcome_bind, Action.outcome_stores]
  constructor
  · intro h
    obtain ⟨⟨r, used⟩, d₁, hopen, h⟩ := outcome_bind_ok.mp h
    obtain ⟨hprepare, rfl⟩ := Prod.mk.inj hopen
    obtain ⟨⟨text, r'⟩, d₁, hread, h⟩ := outcome_bind_ok.mp h
    rw [Action.outcome_attempt] at hread
    obtain ⟨hresult, rfl⟩ := Prod.mk.inj hread
    obtain ⟨position, before, after, hreads, rfl⟩ := Record.decrypt_ok.mp (Prod.ext hresult rfl)
    refine ⟨r, used, position, before, after, hprepare, ?_⟩
    cases used <;> simp [outcome_bind, Except.map] at h <;>
      obtain ⟨rfl, rfl⟩ := h <;> exact ⟨hreads, rfl⟩
  · rintro ⟨r, used, position, before, after, hprepare, hreads, hstores⟩
    have hread := hreads.decrypt peer
    obtain ⟨stores, entropy⟩ := d'
    simp only at hread hstores
    cases used <;> simp [outcome_bind, hprepare, hread, Except.map, hstores, Stores.withoutUsed]

/-- A message is accepted exactly when some state of the opened record reads it
and the identity presented is trusted. -/
theorem decrypt_ok {c : Config} {now : UInt64} {peer : Address} {m : Message} {d d' : Device}
    {plain : Bytes} :
    outcome (decrypt c now peer m) d = (.ok plain, d') ↔
      ∃ x : Reading, opened c d.stores peer m = .ok (x.record, x.used) ∧
        x.record.Reads c now m.inner d.entropy plain x.position x.before x.after d'.entropy ∧
        d.stores.isTrusted peer (presented x.after m) = true ∧
        d'.stores =
          (d.stores.committed peer (presented x.after m) (x.stored c)).withoutUsed x.used := by
  cases m with
  | ratchet m =>
    refine decryptRatchet_ok.trans ⟨?_, ?_⟩
    · rintro ⟨position, before, after, hreads, ht, hstores⟩
      exact ⟨⟨_, none, position, before, after⟩, rfl, hreads, ht, hstores⟩
    · rintro ⟨⟨r, used, position, before, after⟩, hopen, hreads, ht, hstores⟩
      cases hopen
      exact ⟨position, before, after, hreads, ht, hstores⟩
  | preKey m =>
    refine decryptPreKey_ok.trans ⟨?_, ?_⟩
    · rintro ⟨r, used, position, before, after, hprepare, hreads, hstores⟩
      exact ⟨⟨r, used, position, before, after⟩, hprepare, hreads,
        (prepare_ok.mp hprepare).1, hstores⟩
    · rintro ⟨⟨r, used, position, before, after⟩, hopen, hreads, -, hstores⟩
      exact ⟨r, used, position, before, after, hopen, hreads, hstores⟩

/-- Whatever a device decrypts, the message opens as it under the keys of the reading. -/
theorem readingKeys?_of_decrypt {c : Config} {now : UInt64} {peer : Address} {m : Message}
    {d d' : Device} {text : Bytes} (h : outcome (decrypt c now peer m) d = (.ok text, d')) :
    ∃ keys, readingKeys? c now peer m d = some keys ∧ m.inner.OpensUnder keys text := by
  obtain ⟨x, hopen, hreads, -, -⟩ := decrypt_ok.mp h
  obtain ⟨e, -, hread⟩ := hreads.reads
  obtain ⟨keys, hkeys, hopens⟩ := hread.keysFor?
  refine ⟨keys, ?_, hopens⟩
  rw [readingKeys?, reading?_eq_some.mpr ⟨hopen, text, _, hreads⟩, Option.bind_some, hkeys]

/-- A message that is refused leaves the stores as they were. -/
theorem decrypt_error {c : Config} {now : UInt64} {peer : Address} {m : Message} {d d' : Device}
    {fault : SessionError} (h : outcome (decrypt c now peer m) d = (.error fault, d')) :
    d'.stores = d.stores := by
  have hatomic : Atomic Device.stores (decrypt c now peer m) := by
    cases m with
    | ratchet m =>
      refine Keeps.then_atomic (fun _ => rfl) fun stores => ?_
      refine Keeps.then_atomic (fun _ => rfl) fun (plain, r) => ?_
      cases hr : r.current with
      | none =>
        simp only [hr]
        exact Keeps.atomic fun _ => rfl
      | some s =>
        simp only [hr]
        exact Keeps.then_atomic (keeps_checkTrust _ _ _) fun _ =>
          atomic_of_ok fun d => ⟨plain, _, rfl⟩
    | preKey m =>
      refine Keeps.then_atomic (fun _ => rfl) fun stores => ?_
      refine Keeps.then_atomic (fun _ => rfl) fun (r, used) => ?_
      refine Keeps.then_atomic (fun _ => rfl) fun (plain, r) => ?_
      exact atomic_of_ok fun d => by cases used <;> exact ⟨plain, _, rfl⟩
  exact hatomic _ _ _ h

/-- A message that is spent for the current state of the record that it opens
is refused as a duplicate, and nothing changes: not even random bytes are drawn. -/
theorem decrypt_spent {c : Config} {now : UInt64} {peer : Address} {m : Message} {d : Device}
    {r : Record} {used : Option UInt32} {s : State}
    (hopen : opened c d.stores peer m = .ok (r, used)) (hs : r.current = some s)
    (spent : s.Spent m.inner.ratchetKey m.inner.counter) (version : m.inner.version = s.version) :
    ∃ index, outcome (decrypt c now peer m) d =
      (.error (.message (.duplicate index m.inner.counter)), d) := by
  obtain ⟨index, hrefused⟩ := Record.decrypt_spent hs spent version c now peer d.entropy
  refine ⟨index, ?_⟩
  cases m with
  | ratchet m =>
    obtain ⟨rfl, -⟩ := Prod.mk.inj (Except.ok.inj hopen)
    unfold decrypt decryptRatchet
    simp only [outcome_bind, Action.outcome_stores, Action.outcome_attempt]
    simp only [Message.inner] at hrefused
    rw [hrefused]
    rfl
  | preKey p =>
    have hprepare : prepare c d.stores peer (d.stores.loadSession peer) p = .ok (r, used) := hopen
    unfold decrypt decryptPreKey
    simp only [outcome_bind, Action.outcome_stores, Action.outcome_ofExcept,
      Action.outcome_attempt, hprepare]
    simp only [Message.inner] at hrefused
    rw [hrefused]
    rfl

/-- What a device puts in to start a session from a bundle. -/
def initiator (s : Stores) (b : Bundle) (base : KeyPair) : Initiator :=
  ⟨s.identity.keyPair, base, b.identityKey, b.signedPreKey, b.preKey.map Prod.snd, b.signedPreKey⟩

/-- The state that is stored for a bundle, from the one agreed on. -/
def started (s : Stores) (b : Bundle) (base : KeyPair) (agreed : State) : State :=
  { agreed with
    pending := some ⟨b.preKey.map Prod.fst, b.signedPreKeyId, base.publicKey⟩
    localRegistrationId := s.identity.registrationId
    remoteRegistrationId := b.registrationId }

theorem started_new {s : Stores} {b : Bundle} {base sending : KeyPair} {agreed : State}
    (h : (initiator s b base).state sending = .ok agreed) : (started s b base agreed).New :=
  ⟨(Initiator.new h).version, (Initiator.new h).skipped, (Initiator.new h).receivers⟩

/-- It sends on the second pair. -/
theorem started_sends {s : Stores} {b : Bundle} {base sending : KeyPair} {agreed : State}
    (h : (initiator s b base).state sending = .ok agreed) :
    (started s b base agreed).sender.keyPair = sending ∧
      (started s b base agreed).receivers ≠ [] := by
  obtain ⟨secrets, root, chain, -, -, rfl⟩ := Initiator.state_ok.mp h
  exact ⟨rfl, List.cons_ne_nil _ _⟩

theorem started_remoteIdentity {s : Stores} {b : Bundle} {base sending : KeyPair} {agreed : State}
    (h : (initiator s b base).state sending = .ok agreed) :
    (started s b base agreed).remoteIdentity = b.identityKey := by
  obtain ⟨secrets, root, chain, -, -, rfl⟩ := Initiator.state_ok.mp h
  rfl

theorem processBundle_ok {c : Config} {peer : Address} {b : Bundle} {d d' : Device} :
    outcome (processBundle c peer b) d = (.ok (), d') ↔
      d.stores.isTrusted peer b.identityKey = true ∧ b.hasValidSignature = true ∧
      ∃ base sending e₁ e₂ agreed, Draw.keyPair d.entropy = (base, e₁) ∧
      Draw.keyPair e₁ = (sending, e₂) ∧
        (initiator d.stores b base).state sending = .ok agreed ∧
        d' = ⟨d.stores.committed peer b.identityKey ((d.stores.loadSession peer).promote
          (started d.stores b base agreed) c.maxArchivedStates), e₂⟩ := by
  unfold processBundle
  rw [outcome_bind, outcome_checkTrust]
  cases ht : d.stores.isTrusted peer b.identityKey with
  | false => simp
  | true =>
    cases hv : b.hasValidSignature with
    | false => simp
    | true =>
      simp only [Bool.not_true, Bool.false_eq_true, if_false, if_true, outcome_bind,
        Action.outcome_stores, Action.outcome_draw, Action.outcome_ofExcept]
      rcases hb : Draw.keyPair d.entropy with ⟨base, e₁⟩
      rcases hs : Draw.keyPair e₁ with ⟨sending, e₂⟩
      cases hagreed : (initiator d.stores b base).state sending with
      | error fault =>
        rw [initiator] at hagreed
        simp only [hagreed, mapError_of_error, Prod.mk.injEq, reduceCtorEq, false_and, false_iff]
        rintro ⟨-, -, base', sending', e₁', e₂', agreed, h₁, h₂, hother, -⟩
        obtain ⟨rfl, rfl⟩ := Prod.mk.inj h₁
        obtain ⟨rfl, rfl⟩ := Prod.mk.inj (hs.symm.trans h₂)
        rw [initiator, hagreed] at hother
        cases hother
      | ok agreed =>
        have hsame := hagreed
        rw [initiator] at hagreed
        simp only [hagreed, mapError_of_ok, outcome_commit, Prod.mk.injEq, true_and]
        constructor
        · rintro rfl
          exact ⟨base, sending, e₁, e₂, agreed, rfl, hs, hsame, rfl⟩
        · rintro ⟨base', sending', e₁', e₂', agreed', h₁, h₂, hother, rfl⟩
          obtain ⟨rfl, rfl⟩ := Prod.mk.inj h₁
          obtain ⟨rfl, rfl⟩ := Prod.mk.inj (hs.symm.trans h₂)
          obtain rfl := Except.ok.inj (hsame.symm.trans hother)
          rfl

/-- A bundle that is refused leaves the stores as they were. -/
theorem processBundle_error {c : Config} {peer : Address} {b : Bundle} {d d' : Device}
    {fault : SessionError} (h : outcome (processBundle c peer b) d = (.error fault, d')) :
    d'.stores = d.stores := by
  have hatomic : Atomic Device.stores (processBundle c peer b) := by
    refine Keeps.then_atomic (keeps_checkTrust _ _ _) fun _ => ?_
    cases hv : b.hasValidSignature with
    | false => exact Keeps.atomic fun _ => rfl
    | true =>
      refine Keeps.then_atomic (fun _ => rfl) fun stores => ?_
      refine Keeps.then_atomic (fun _ => rfl) fun base =>
        Keeps.then_atomic (fun _ => rfl) fun sending => ?_
      exact Keeps.then_atomic (fun _ => rfl) fun agreed => atomic_of_ok fun d => ⟨(), _, rfl⟩
  exact hatomic _ _ _ h

end Engine

end DoubleRatchet
