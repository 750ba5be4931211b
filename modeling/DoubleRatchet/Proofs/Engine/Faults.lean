import DoubleRatchet.Proofs.Sealed.Refusals
import DoubleRatchet.Proofs.Session.Lengths
import DoubleRatchet.Proofs.Session.Persistence

/-!
# What operations fail with

Some faults of the engine guard against what other functions rule out: that a
chain is gone as soon as it is added, that an attempt succeeds on a state that
is not there, that no state is left to a message that brought one. Whatever the
stores hold, whatever the bounds of the configuration are and whatever a message
says, an operation fails with one of the faults listed below. Main statement:
`Engine.internal_faults_unreachable`.
-/
namespace DoubleRatchet

variable [Suite]

/-- An agreement fails for a low-order key alone. -/
theorem PrivateKey.agree_failsWith (key : PrivateKey) (their : PublicKey) :
    FailsWith (· = .lowOrder) (key.agree their) := by
  intro fault h
  unfold agree at h
  split at h
  · cases h
  · exact (Except.error.inj h).symm

theorem RootKey.createChain_failsWith (root : RootKey) (their : PublicKey) (our : PrivateKey) :
    FailsWith (· = .lowOrder) (root.createChain their our) :=
  fun _ h => (createChain_error.mp h).2

theorem Initiator.secrets_failsWith (p : Initiator) : FailsWith (· = .lowOrder) p.secrets := by
  unfold secrets
  refine (PrivateKey.agree_failsWith _ _).bind fun first _ => ?_
  refine (PrivateKey.agree_failsWith _ _).bind fun second _ => ?_
  refine (PrivateKey.agree_failsWith _ _).bind fun third _ => ?_
  exact (failsWith_mapM (PrivateKey.agree_failsWith _) _).bind fun fourth _ => failsWith_ok _

theorem Responder.secrets_failsWith (p : Responder) : FailsWith (· = .lowOrder) p.secrets := by
  unfold secrets
  refine (PrivateKey.agree_failsWith _ _).bind fun first _ => ?_
  refine (PrivateKey.agree_failsWith _ _).bind fun second _ => ?_
  refine (PrivateKey.agree_failsWith _ _).bind fun third _ => ?_
  exact (failsWith_mapM (fun pair : KeyPair => pair.privateKey.agree_failsWith _) _).bind
    fun fourth _ => failsWith_ok _

theorem Initiator.state_failsWith (p : Initiator) (sending : KeyPair) :
    FailsWith (· = .lowOrder) (p.state sending) := by
  rw [← stateMeasured_eq, stateMeasured]
  refine p.secrets_failsWith.bind fun secrets _ => ?_
  simp only [deriveRootMeasured_eq, RootKey.createChainMeasured_eq]
  exact (RootKey.createChain_failsWith _ _ _).bind fun sent _ => failsWith_ok _

theorem Responder.state_failsWith (p : Responder) : FailsWith (· = .lowOrder) p.state := by
  rw [← stateMeasured_eq, stateMeasured]
  refine p.secrets_failsWith.bind fun secrets _ => ?_
  rw [deriveRootMeasured_eq]
  exact failsWith_ok _

namespace Engine

variable {peer : Address}

/-- Why a device does not write to a peer. -/
inductive WritingFault (peer : Address) : SessionError → Prop
  | noSession : WritingFault peer (.session (.noSession peer))
  | exhausted : WritingFault peer (.session (.invalidState .senderChainExhausted))
  | untrusted : WritingFault peer (.session (.untrustedIdentity peer))

/-- Why a device does not start a session from a bundle of a peer. -/
inductive StartingFault (peer : Address) : SessionError → Prop
  | untrusted : StartingFault peer (.session (.untrustedIdentity peer))
  | signature : StartingFault peer (.session .badSignature)
  | key : StartingFault peer (.session (.invalidKey .lowOrder))

/-- Why a device does not read a message from a peer: only an ordinary message
can lack a session. -/
inductive ReadingFault (peer : Address) : Message → SessionError → Prop
  | noSession {m : RatchetMessage} : ReadingFault peer (.ratchet m) (.session (.noSession peer))
  | untrusted {m : Message} : ReadingFault peer m (.session (.untrustedIdentity peer))
  | version {m : Message} : ReadingFault peer m (.session (.unsupportedVersion m.inner.version))
  | key {m : Message} : ReadingFault peer m (.session (.invalidKey .lowOrder))
  | message {m : Message} (fault : MessageFault) : ReadingFault peer m (.message fault)

omit [Suite] in
theorem reports_checkTrust {P : SessionError → Prop} (h : P (.session (.untrustedIdentity peer)))
    (identity : PublicKey) : Reports P (checkTrust peer identity) := by
  intro d
  rw [outcome_checkTrust]
  split
  · exact failsWith_ok ()
  · exact failsWith_error h

omit [Suite] in
theorem reports_commit {P : SessionError → Prop} (identity : PublicKey) (r : Record) :
    Reports P (commit peer identity r) :=
  Action.reports_update _

/-- A state refuses a message for what a device may refuse it. -/
theorem readingFault_of_refuses {s : State} {m : Message} {e : Entropy} {fault : SessionError}
    (h : s.Refuses m.inner e fault) : ReadingFault peer m fault := by
  cases h with
  | version => exact .version
  | key => exact .key
  | message why => exact .message why

/-- So does a record, which lacks a session if it has no state. -/
theorem record_reports (c : Config) (now : UInt64) {r : Record} {m : Message}
    (lacks : r.states = [] → ReadingFault peer m (.session (.noSession peer))) :
    Reports (ReadingFault peer m) (r.decrypt c now peer m.inner) := by
  intro e fault h
  have hblames := Record.blames_of_error h
  generalize htried : Record.trials c now m.inner r.states e = tried at hblames
  cases hblames with
  | noState => exact lacks (Record.trials_eq_nil.mp htried)
  | tooFar => exact .message _
  | invalid => exact .message _
  | final =>
    have hmem : .error fault ∈ Record.trials c now m.inner r.states e := by
      rw [htried]
      exact List.mem_append_right _ List.mem_cons_self
    obtain ⟨s, -, e₁, hrefuses⟩ := Record.refuses_of_mem_trials hmem
    exact readingFault_of_refuses hrefuses

/-- The state for a first message fails for a pre-key that is not there, or a low-order key. -/
theorem respond_failsWith (s : Stores) (m : PreKeyMessage) :
    FailsWith (ReadingFault peer (.preKey m)) (respond s m) := by
  have hsigned :
      FailsWith (ReadingFault peer (.preKey m)) (s.loadSignedPreKey m.signedPreKeyId) := by
    unfold Stores.loadSignedPreKey
    split
    · exact failsWith_ok _
    · exact failsWith_error (.message _)
  have honeTime : ∀ id, FailsWith (ReadingFault peer (.preKey m)) (s.loadPreKey id) := by
    intro id
    unfold Stores.loadPreKey
    split
    · exact failsWith_ok _
    · exact failsWith_error (.message _)
  unfold respond
  refine hsigned.bind fun signed _ => (failsWith_mapM honeTime _).bind fun oneTime _ => ?_
  refine FailsWith.bind ((Responder.state_failsWith _).mapError ?_) fun state _ => failsWith_ok _
  rintro key rfl
  exact .key

theorem prepare_failsWith (c : Config) (s : Stores) (r : Record) (m : PreKeyMessage) :
    FailsWith (ReadingFault peer (.preKey m)) (prepare c s peer r m) := by
  unfold prepare
  cases s.isTrusted peer m.identityKey with
  | false => exact failsWith_error .untrusted
  | true =>
    cases r.hasState m.version m.baseKey with
    | true => exact failsWith_ok _
    | false => exact (respond_failsWith s m).bind fun own _ => failsWith_ok _

/-- There is a state to read a first message: one that its base key is known from, or
the one it brings. -/
theorem states_prepare {c : Config} {s : Stores} {r r' : Record} {m : PreKeyMessage}
    {used : Option UInt32} (h : prepare c s peer r m = .ok (r', used)) : r'.states ≠ [] := by
  obtain ⟨-, ⟨hknown, rfl, -⟩ | ⟨-, own, -, rfl, -⟩⟩ := prepare_ok.mp h
  · intro hnil
    simp [Record.hasState, hnil] at hknown
  · rw [Record.states_promote]
    exact List.cons_ne_nil _ _

theorem encrypt_reports (plain : Bytes) : Reports (WritingFault peer) (encrypt peer plain) := by
  unfold encrypt
  refine Action.reports_stores.bind fun stores _ => ?_
  cases hs : (stores.loadSession peer).current with
  | none =>
    simp only [hs]
    exact reports_throw .noSession
  | some s =>
    simp only [hs]
    refine (Action.reports_ofExcept (P := WritingFault peer) ?_).bind fun written _ => ?_
    · unfold State.encrypt
      simp only
      split
      · exact failsWith_error .exhausted
      · exact failsWith_ok _
    · refine (reports_checkTrust .untrusted _).bind fun _ _ => ?_
      exact (reports_commit _ _).bind fun _ _ => reports_pure _

theorem processBundle_reports (c : Config) (b : Bundle) :
    Reports (StartingFault peer) (processBundle c peer b) := by
  unfold processBundle
  refine (reports_checkTrust .untrusted _).bind fun _ _ => ?_
  split
  · exact reports_throw .signature
  · refine Action.reports_stores.bind fun stores _ => ?_
    refine (Action.reports_draw _).bind fun base _ => ?_
    refine (Action.reports_draw _).bind fun sending _ => ?_
    refine (Action.reports_ofExcept ((Initiator.state_failsWith _ _).mapError ?_)).bind
      fun state _ => ?_
    · rintro key rfl
      exact .key
    · exact reports_commit _ _

theorem decryptRatchet_reports (c : Config) (now : UInt64) (m : RatchetMessage) :
    Reports (ReadingFault peer (.ratchet m)) (decryptRatchet c now peer m) := by
  unfold decryptRatchet
  refine Action.reports_stores.bind fun stores _ => ?_
  have hrecord : Reports (ReadingFault peer (.ratchet m))
      ((stores.loadSession peer).decrypt c now peer m) :=
    record_reports c now (m := .ratchet m) fun _ => .noSession
  refine (Action.reports_attempt hrecord).bind ?_
  intro ⟨plain, r⟩ ⟨d, d', hread⟩
  rw [Action.outcome_attempt] at hread
  obtain ⟨hresult, -⟩ := Prod.mk.inj hread
  -- the state that reads a message is the current one afterwards
  obtain ⟨position, before, after, -, rfl⟩ := Record.decrypt_ok.mp (Prod.ext hresult rfl)
  refine (reports_checkTrust .untrusted _).bind fun _ _ => ?_
  exact (reports_commit _ _).bind fun _ _ => reports_pure plain

theorem decryptPreKey_reports (c : Config) (now : UInt64) (m : PreKeyMessage) :
    Reports (ReadingFault peer (.preKey m)) (decryptPreKey c now peer m) := by
  unfold decryptPreKey
  refine Action.reports_stores.bind fun stores _ => ?_
  refine (Action.reports_ofExcept (prepare_failsWith c stores _ m)).bind ?_
  intro ⟨r, used⟩ ⟨d, d', hprepare⟩
  have hstates : r.states ≠ [] := states_prepare (congrArg Prod.fst hprepare)
  refine (Action.reports_attempt
    (record_reports c now (m := .preKey m) fun hnil => absurd hnil hstates)).bind ?_
  intro ⟨plain, r'⟩ _
  refine (reports_commit _ _).bind fun _ _ => ?_
  cases used with
  | none => exact reports_pure plain
  | some id => exact (Action.reports_update _).bind fun _ _ => reports_pure plain

theorem decrypt_reports (c : Config) (now : UInt64) (m : Message) :
    Reports (ReadingFault peer m) (decrypt c now peer m) := by
  cases m with
  | ratchet m => exact decryptRatchet_reports c now m
  | preKey m => exact decryptPreKey_reports c now m

/-- Whatever a device has stored, reading fails with no fault of a state, with the want of a
session for an ordinary message only, and with no key fault but a low-order key. Writing fails with
no fault of a state but an exhausted sender chain, and with no key fault at all; starting a session
with no key fault but a low-order key. The lengths that types stand for here are always met: with
each derivation, key and block measured as it is used, messages and agreements come to the same. -/
theorem internal_faults_unreachable (c : Config) (now : UInt64) (peer : Address) (d : Device) :
    (∀ m fault, (outcome (decrypt c now peer m) d).1 = .error fault →
      (∀ why, fault ≠ .session (.invalidState why)) ∧
      (∀ other, fault = .session (.noSession other) → ∃ ordinary, m = .ratchet ordinary) ∧
      ∀ key, fault = .session (.invalidKey key) → key = .lowOrder) ∧
    (∀ plain fault, (outcome (encrypt peer plain) d).1 = .error fault →
      (∀ why, fault = .session (.invalidState why) → why = .senderChainExhausted) ∧
      ∀ key, fault ≠ .session (.invalidKey key)) ∧
    (∀ b fault, (outcome (processBundle c peer b) d).1 = .error fault →
      (∀ why, fault ≠ .session (.invalidState why)) ∧ ∀ key, fault = .session (.invalidKey key) →
      key = .lowOrder) ∧
    (∀ s m, State.decryptMeasured c now s m = s.decrypt c now m) ∧
    (∀ s plain, State.encryptMeasured s plain = s.encrypt plain) ∧
    (∀ p sending, Initiator.stateMeasured p sending = p.state sending) ∧
    ∀ p, Responder.stateMeasured p = p.state := by
  refine ⟨?_, ?_, ?_, State.decryptMeasured_eq c now, State.encryptMeasured_eq,
    Initiator.stateMeasured_eq, Responder.stateMeasured_eq⟩
  · intro m fault h
    cases decrypt_reports c now m d fault h <;> simp
  · intro plain fault h
    cases encrypt_reports plain d fault h <;> simp
  · intro b fault h
    cases processBundle_reports c b d fault h <;> simp

end Engine

namespace Small

/-- The device with a session whose sender chain has come to its end. -/
def exhausted : Device :=
  { started with stores := started.stores.storeSession bob ⟨some crowded, []⟩ }

end Small

omit [Suite] in
/-- A stranger's ratchet key is of low order, and a full chain writes nothing. -/
theorem Engine.internal_faults_unreachable_forged :
    (∃ key, (outcome
      (@decrypt Small.strict {} 0 Small.bob (.ratchet Small.forged)) Small.started).1 =
      .error (.session (.invalidKey key)) ∧ key = .lowOrder) ∧
    ∃ why, (outcome (@encrypt Small.strict Small.bob [1]) Small.exhausted).1 =
      .error (.session (.invalidState why)) ∧ why = .senderChainExhausted := by
  let := Small.strict
  have hforged : (outcome (decrypt {} 0 Small.bob (.ratchet Small.forged)) Small.started).1 =
      .error (.session (.invalidKey .lowOrder)) := by decide +kernel
  have hexhausted : (outcome (encrypt Small.bob [1]) Small.exhausted).1 =
      .error (.session (.invalidState .senderChainExhausted)) := by decide +kernel
  obtain ⟨hread, -⟩ := internal_faults_unreachable {} 0 Small.bob Small.started
  obtain ⟨-, hwrite, -⟩ := internal_faults_unreachable {} 0 Small.bob Small.exhausted
  exact ⟨⟨_, hforged, (hread _ _ hforged).2.2 _ rfl⟩, _, hexhausted,
    (hwrite _ _ hexhausted).1 _ rfl⟩

end DoubleRatchet
