import DoubleRatchet.Proofs.Engine.Runs

/-!
# What an operation depends on

What a device does with a peer depends on its own keys, on the record and the
pinned identity of that peer, and on the one-time pre-key that a first message
names: stores that are alike in these cannot be told apart. And it changes
nothing that another peer depends on but that pre-key. Main statements:
`Operation.act_alike` and `Operation.alike_perform`.
-/
namespace DoubleRatchet

/-- Two stores that are the same as far as a peer depends on them, and in the
one-time pre-keys that are shared. -/
structure Stores.Alike (peer : Address) (shared : UInt32 → Prop) (s t : Stores) : Prop where
  keyPair : t.identity.keyPair = s.identity.keyPair
  registrationId : t.identity.registrationId = s.identity.registrationId
  signedPreKeys : t.signedPreKeys = s.signedPreKeys
  pinned : t.identity.known.get? peer = s.identity.known.get? peer
  record : t.sessions.get? peer = s.sessions.get? peer
  preKeys : ∀ id, shared id → t.preKeys.get? id = s.preKeys.get? id

namespace Stores.Alike

variable {peer : Address} {shared fewer : UInt32 → Prop} {s t u : Stores}

theorem refl (peer : Address) (shared : UInt32 → Prop) (s : Stores) : s.Alike peer shared s :=
  ⟨rfl, rfl, rfl, rfl, rfl, fun _ _ => rfl⟩

theorem symm (h : s.Alike peer shared t) : t.Alike peer shared s :=
  ⟨h.keyPair.symm, h.registrationId.symm, h.signedPreKeys.symm, h.pinned.symm, h.record.symm,
    fun id hid => (h.preKeys id hid).symm⟩

theorem trans (h : s.Alike peer shared t) (h' : t.Alike peer shared u) : s.Alike peer shared u :=
  ⟨h'.keyPair.trans h.keyPair, h'.registrationId.trans h.registrationId,
    h'.signedPreKeys.trans h.signedPreKeys, h'.pinned.trans h.pinned, h'.record.trans h.record,
    fun id hid => (h'.preKeys id hid).trans (h.preKeys id hid)⟩

theorem mono (h : s.Alike peer shared t) (hfewer : ∀ id, fewer id → shared id) :
    s.Alike peer fewer t :=
  ⟨h.keyPair, h.registrationId, h.signedPreKeys, h.pinned, h.record,
    fun id hid => h.preKeys id (hfewer id hid)⟩

theorem loadSession (h : s.Alike peer shared t) : t.loadSession peer = s.loadSession peer := by
  rw [Stores.loadSession, h.record, Stores.loadSession]

theorem isTrusted (h : s.Alike peer shared t) (key : PublicKey) :
    t.isTrusted peer key = s.isTrusted peer key := by
  rw [Stores.isTrusted, h.pinned, Stores.isTrusted]

/-- A commit for the peer makes the same of both. -/
theorem committed (h : s.Alike peer shared t) (identity : PublicKey) (r : Record) :
    (s.committed peer identity r).Alike peer shared (t.committed peer identity r) := by
  refine ⟨h.keyPair, h.registrationId, h.signedPreKeys, ?_, ?_, h.preKeys⟩ <;>
    simp only [Stores.committed, saveIdentity, storeSession, Table.get?_insert, if_true]

theorem removePreKey (h : s.Alike peer shared t) (id : UInt32) :
    (s.removePreKey id).Alike peer shared (t.removePreKey id) := by
  refine ⟨h.keyPair, h.registrationId, h.signedPreKeys, h.pinned, h.record, fun other hother => ?_⟩
  simp only [Stores.removePreKey, Table.get?_erase, h.preKeys other hother]

/-- A commit for one peer leaves another one everything but the pre-key that it uses up. -/
theorem of_committed (s : Stores) {other : Address} (hother : other ≠ peer) (identity : PublicKey)
    (r : Record) (used : Option UInt32) :
    s.Alike other (fun id => used ≠ some id) ((s.committed peer identity r).withoutUsed used) := by
  have hcommitted : s.Alike other (fun _ => True) (s.committed peer identity r) := by
    refine ⟨rfl, rfl, rfl, ?_, ?_, fun _ _ => rfl⟩ <;>
      simp only [Stores.committed, saveIdentity, storeSession, Table.get?_insert, if_neg hother]
  cases used with
  | none => exact hcommitted.mono fun _ _ => trivial
  | some id =>
    have hremoved : (s.committed peer identity r).Alike other (fun kept => some id ≠ some kept)
        ((s.committed peer identity r).removePreKey id) := by
      refine ⟨rfl, rfl, rfl, rfl, rfl, fun kept hkept => ?_⟩
      rw [Stores.removePreKey, Table.get?_erase, if_neg fun heq => hkept (congrArg some heq.symm)]
    exact (hcommitted.mono fun _ _ => trivial).trans hremoved

end Stores.Alike

/-- Stores that are alike for every peer and in every one-time pre-key are the same. -/
theorem Stores.eq_of_alike {s t : Stores} (h : ∀ peer, s.Alike peer (fun _ => False) t)
    (hpreKeys : ∀ id, t.preKeys.get? id = s.preKeys.get? id) : s = t := by
  have hany := h ⟨"", 0⟩
  have hkeyPair := hany.keyPair
  have hregistrationId := hany.registrationId
  have hsigned := hany.signedPreKeys
  have hknown : t.identity.known = s.identity.known := Table.ext_get? fun peer => (h peer).pinned
  have hsessions : t.sessions = s.sessions := Table.ext_get? fun peer => (h peer).record
  have hpre : t.preKeys = s.preKeys := Table.ext_get? hpreKeys
  obtain ⟨⟨keyPair, registrationId, known⟩, preKeys, signedPreKeys, sessions⟩ := s
  obtain ⟨⟨keyPair', registrationId', known'⟩, preKeys', signedPreKeys', sessions'⟩ := t
  cases hkeyPair
  cases hregistrationId
  cases hsigned
  cases hknown
  cases hsessions
  cases hpre
  rfl

/-- Two devices with alike stores, in front of the same random bytes. -/
structure Device.Alike (peer : Address) (shared : UInt32 → Prop) (d e : Device) : Prop where
  stores : d.stores.Alike peer shared e.stores
  entropy : e.entropy = d.entropy

/-- A computation of a device that gives the same from alike devices and leaves them alike. -/
def Respects {ε α : Type} (peer : Address) (shared : UInt32 → Prop) (x : Action ε α) : Prop :=
  ∀ d e, d.Alike peer shared e →
    (outcome x e).1 = (outcome x d).1 ∧ (outcome x d).2.Alike peer shared (outcome x e).2

namespace Respects

variable {ε α β : Type} {peer : Address} {shared : UInt32 → Prop}

theorem bind {x : Action ε α} {f : α → Action ε β} (hx : Respects peer shared x)
    (hf : ∀ a, Respects peer shared (f a)) : Respects peer shared (x >>= f) := by
  intro d e h
  obtain ⟨hresult, halike⟩ := hx d e h
  rw [outcome_bind, outcome_bind]
  rcases hd : outcome x d with ⟨result, d'⟩
  rcases he : outcome x e with ⟨result', e'⟩
  rw [hd, he] at hresult halike
  obtain rfl : result' = result := hresult
  cases result' with
  | error fault => exact ⟨rfl, halike⟩
  | ok a => exact hf a d' e' halike

theorem of_result (r : Except ε α) : Respects peer shared (ExceptT.mk (pure r) : Action ε α) :=
  fun _ _ h => ⟨rfl, h⟩

theorem attempt (x : ExceptT ε Draw α) : Respects peer shared (Action.attempt x) := by
  intro d e h
  rw [Action.outcome_attempt, Action.outcome_attempt, h.entropy]
  exact ⟨rfl, h.stores, rfl⟩

theorem update {f : Stores → Stores}
    (hf : ∀ s t : Stores, s.Alike peer shared t → (f s).Alike peer shared (f t)) :
    Respects peer shared (Action.update f : Action ε Unit) :=
  fun _ _ h => ⟨rfl, hf _ _ h.stores, h.entropy⟩

/-- What is done with the stores that were read is the same for alike ones. -/
theorem stores {f : Stores → Action ε α} (same : ∀ s t : Stores, s.Alike peer shared t → f t = f s)
    (hf : ∀ s, Respects peer shared (f s)) : Respects peer shared (Action.stores >>= f) := by
  intro d e h
  simp only [outcome_bind, Action.outcome_stores]
  rw [same _ _ h.stores]
  exact hf d.stores d e h

theorem map {x : Action ε α} (hx : Respects peer shared x) (f : α → β) :
    Respects peer shared (f <$> x) := by
  intro d e h
  obtain ⟨hresult, halike⟩ := hx d e h
  rw [outcome_map, outcome_map, hresult]
  exact ⟨rfl, halike⟩

end Respects

namespace Engine

variable {peer : Address} {shared : UInt32 → Prop}

theorem respects_checkTrust (identity : PublicKey) :
    Respects peer shared (checkTrust peer identity) := by
  refine .stores (fun s t h => by simp only [h.isTrusted]) fun s => ?_
  cases s.isTrusted peer identity <;> exact .of_result _

theorem respects_commit (identity : PublicKey) (r : Record) :
    Respects peer shared (commit peer identity r) :=
  .update fun _ _ h => h.committed identity r

variable [Suite]

theorem respects_encrypt (plain : Bytes) : Respects peer shared (encrypt peer plain) := by
  refine .stores (fun s t h => by simp only [h.loadSession]) fun s => ?_
  cases hcurrent : (s.loadSession peer).current with
  | none =>
    simp only [hcurrent]
    exact .of_result _
  | some state =>
    simp only [hcurrent]
    refine .bind (.of_result _) fun written => .bind (respects_checkTrust _) fun _ => ?_
    exact .bind (respects_commit _ _) fun _ => .of_result _

theorem respects_decryptRatchet (c : Config) (now : UInt64) (m : RatchetMessage) :
    Respects peer shared (decryptRatchet c now peer m) := by
  refine .stores (fun s t h => by simp only [h.loadSession]) fun s =>
    .bind (.attempt _) fun (plain, r) => ?_
  cases hcurrent : r.current with
  | none =>
    simp only [hcurrent]
    exact .of_result _
  | some state =>
    simp only [hcurrent]
    exact .bind (respects_checkTrust _) fun _ => .bind (respects_commit _ _) fun _ => .of_result _

theorem respects_processBundle (c : Config) (b : Bundle) :
    Respects peer shared (processBundle c peer b) := by
  refine .bind (respects_checkTrust _) fun _ => ?_
  cases b.hasValidSignature with
  | false => exact .of_result _
  | true =>
    refine .stores (fun s t h => by simp only [h.keyPair, h.registrationId, h.loadSession])
      fun s => ?_
    refine .bind (.attempt _) fun base => .bind (.attempt _) fun sending =>
      .bind (.of_result _) fun agreed => ?_
    exact respects_commit _ _

/-- A responder's state is the same where the pre-key that the message names is. -/
theorem respond_alike {s t : Stores} (h : s.Alike peer shared t) {m : PreKeyMessage}
    (hnamed : ∀ id, m.preKeyId = some id → shared id) : respond t m = respond s m := by
  have honeTime : m.preKeyId.mapM t.loadPreKey = m.preKeyId.mapM s.loadPreKey := by
    cases hid : m.preKeyId with
    | none => rfl
    | some id => simp only [Option.mapM_some, Stores.loadPreKey, h.preKeys id (hnamed id hid)]
  simp only [respond, Stores.loadSignedPreKey, h.signedPreKeys, honeTime,
    h.keyPair, h.registrationId]

theorem prepare_alike {s t : Stores} (h : s.Alike peer shared t) (c : Config) {m : PreKeyMessage}
    (hnamed : (s.loadSession peer).hasState m.version m.baseKey = false →
      ∀ id, m.preKeyId = some id → shared id) :
    prepare c t peer (t.loadSession peer) m = prepare c s peer (s.loadSession peer) m := by
  simp only [prepare, h.isTrusted, h.loadSession]
  cases hknown : (s.loadSession peer).hasState m.version m.baseKey with
  | true => rfl
  | false => rw [respond_alike h (hnamed hknown)]

/-- A first message is read alike where the pre-key is shared that it uses up. -/
theorem decryptPreKey_alike (c : Config) (now : UInt64) {m : PreKeyMessage} {d e : Device}
    (h : d.Alike peer shared e)
    (hnamed : (d.stores.loadSession peer).hasState m.version m.baseKey = false →
      ∀ id, m.preKeyId = some id → shared id) :
    (outcome (decryptPreKey c now peer m) e).1 = (outcome (decryptPreKey c now peer m) d).1 ∧
      (outcome (decryptPreKey c now peer m) d).2.Alike peer shared
        (outcome (decryptPreKey c now peer m) e).2 := by
  unfold decryptPreKey
  rw [outcome_bind, outcome_bind, Action.outcome_stores, Action.outcome_stores]
  simp only [prepare_alike h.stores c hnamed]
  refine Respects.bind (.of_result _) (fun (opened : Record × Option UInt32) => ?_) d e h
  obtain ⟨r, used⟩ := opened
  refine .bind (.attempt _) fun (read : Bytes × Record) => .bind (respects_commit _ _) fun _ => ?_
  cases used with
  | none => exact .of_result _
  | some id => exact .bind (.update fun _ _ h => h.removePreKey id) fun _ => .of_result _

end Engine

namespace Operation

/-- The peer that an operation is for. -/
def peer? : Operation → Option Address
  | generate .. => none
  | process peer _ | encrypt peer _ | decrypt _ peer _ => some peer

/-- The one-time pre-key that a first message names, if its base key is new to the record. -/
def claims (s : Stores) : Operation → Option UInt32
  | decrypt _ peer (.preKey m) =>
    if (s.loadSession peer).hasState m.version m.baseKey then none else m.preKeyId
  | _ => none

theorem claims_preKey {s : Stores} {now : UInt64} {peer : Address} {m : PreKeyMessage}
    (hnew : (s.loadSession peer).hasState m.version m.baseKey = false) :
    (decrypt now peer (.preKey m)).claims s = m.preKeyId := by
  simp [claims, hnew]

variable {op : Operation} {peer : Address} {shared : UInt32 → Prop}

theorem claims_alike (concerns : op.peer? = some peer) {s t : Stores} (h : s.Alike peer shared t) :
    op.claims t = op.claims s := by
  unfold claims
  split
  · cases concerns
    rw [h.loadSession]
  · rfl

variable [Suite]

/-- From alike devices that share what it claims, an operation does the same. -/
theorem act_alike (c : Config) (concerns : op.peer? = some peer) {d e : Device}
    (h : d.Alike peer shared e) (hclaimed : ∀ id, op.claims d.stores = some id → shared id) :
    (outcome (op.act c) e).1 = (outcome (op.act c) d).1 ∧
      (outcome (op.act c) d).2.Alike peer shared (outcome (op.act c) e).2 := by
  cases op with
  | generate => cases concerns
  | process =>
    cases concerns
    exact (Engine.respects_processBundle c _).map _ d e h
  | encrypt =>
    cases concerns
    exact (Engine.respects_encrypt _).map _ d e h
  | decrypt now other m =>
    cases concerns
    cases m with
    | ratchet m => exact (Engine.respects_decryptRatchet c now m).map _ d e h
    | preKey m =>
      obtain ⟨hresult, halike⟩ := Engine.decryptPreKey_alike c now (m := m) h fun hnew id hid =>
        hclaimed id ((claims_preKey hnew).trans hid)
      simp only [act, outcome_map, Engine.decrypt, hresult]
      exact ⟨trivial, halike⟩

/-- The pre-key that a first message uses up is the one that it claims. -/
theorem claims_of_opened {c : Config} {now : UInt64} {d : Device} {m : Message} {r : Record}
    {id : UInt32} (h : Engine.opened c d.stores peer m = .ok (r, some id)) :
    (decrypt now peer m).claims d.stores = some id := by
  cases m with
  | ratchet m => cases h
  | preKey m =>
    obtain ⟨-, ⟨-, -, hnone⟩ | ⟨hnew, own, -, -, hnamed⟩⟩ := Engine.prepare_ok.mp h
    · cases hnone
    · rw [claims_preKey hnew, ← hnamed]

/-- An operation leaves other peers everything but the pre-key that it claims. -/
theorem alike_perform (c : Config) (d : Device) (concerns : op.peer? = some peer) {other : Address}
    (hother : other ≠ peer) :
    d.stores.Alike other (fun id => op.claims d.stores ≠ some id) (op.perform c d).stores := by
  have hacts := acts_perform c d op
  generalize (op.perform c d).stores = t at hacts ⊢
  cases hacts with
  | same => exact .refl _ _ _
  | made => cases concerns
  | started =>
    cases concerns
    exact (Stores.Alike.of_committed d.stores hother _ _ none).mono fun _ _ => by simp
  | written =>
    cases concerns
    exact (Stores.Alike.of_committed d.stores hother _ _ none).mono fun _ _ => by simp
  | @read now _ m x plain e opened =>
    cases concerns
    refine (Stores.Alike.of_committed d.stores hother _ _ x.used).mono fun id hid hused => hid ?_
    exact claims_of_opened (hused ▸ opened)

/-- An operation for a peer leaves all signed pre-keys. -/
theorem signedPreKeys_perform (c : Config) (d : Device) (op : Operation)
    (concerns : op.peer? = some peer) :
    (op.perform c d).stores.signedPreKeys = d.stores.signedPreKeys := by
  have hacts := acts_perform c d op
  generalize (op.perform c d).stores = t at hacts ⊢
  cases hacts with
  | same => rfl
  | made => cases concerns
  | started => rfl
  | written => rfl
  | @read _ _ _ x => cases x.used <;> rfl

/-- An operation that claims a pre-key and succeeds has found it stored, and removes it. -/
theorem claims_ok {c : Config} {d d' : Device} {answer : Answer}
    (h : outcome (op.act c) d = (.ok answer, d')) {id : UInt32}
    (hclaims : op.claims d.stores = some id) :
    d.stores.preKeys.get? id ≠ none ∧ d'.stores.preKeys.get? id = none := by
  unfold claims at hclaims
  split at hclaims
  · next now peer m =>
    split at hclaims
    · cases hclaims
    · next hnew =>
      obtain ⟨plain, hdecrypt, -⟩ := outcome_map_ok.mp h
      obtain ⟨x, hopen, -, -, hstores⟩ := Engine.decrypt_ok.mp hdecrypt
      obtain ⟨-, ⟨hknown, -⟩ | ⟨-, own, hown, -, hused⟩⟩ := Engine.prepare_ok.mp hopen
      · exact absurd hknown hnew
      · obtain ⟨signed, oneTime, agreed, -, honeTime, -⟩ := Engine.respond_ok.mp hown
        refine ⟨fun hnone => ?_, ?_⟩
        · rw [hclaims, Option.mapM_some, Stores.loadPreKey, hnone] at honeTime
          cases honeTime
        · rw [hstores, hused, hclaims, Stores.withoutUsed, Stores.removePreKey,
            Table.get?_erase, if_pos rfl]
  · cases hclaims

/-- An operation for a peer that fails leaves the stores as they were. -/
theorem act_error {c : Config} (concerns : op.peer? = some peer) {d d' : Device}
    {fault : SessionError} (h : outcome (op.act c) d = (.error fault, d')) :
    d'.stores = d.stores := by
  cases op with
  | generate => cases concerns
  | process => exact Engine.processBundle_error (outcome_map_error.mp h)
  | encrypt => rw [Engine.encrypt_error (outcome_map_error.mp h)]
  | decrypt => exact Engine.decrypt_error (outcome_map_error.mp h)

end Operation

end DoubleRatchet
