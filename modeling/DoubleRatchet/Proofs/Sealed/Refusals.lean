import DoubleRatchet.Proofs.Engine.AtMostOnce
import DoubleRatchet.Proofs.Engine.Records
import DoubleRatchet.Proofs.Engine.Trials
import DoubleRatchet.Proofs.Sealed.Pinning

/-!
# Session faults for incoming messages

Whatever a device has been asked for, an ordinary message for a stored session
is read or refused with a message fault. The one exception is a ratchet key that
admits no agreement: anyone can send it, it is refused before the message is
authenticated, and the refusal is a session fault although the session goes on
as before. Main statement: `session_fault_iff_barred`.
-/
namespace DoubleRatchet

variable [Suite]

/-- What every operation preserves of the stores, all calls preserve. -/
theorem Device.serve_induction {P : Stores → Prop}
    (step : ∀ c d op, P d.stores → P (Operation.perform c d op).stores) {d : Device}
    (start : P d.stores) (calls : List Call) : P (d.serve calls).stores := by
  induction calls generalizing d with
  | nil => exact start
  | cons call calls ih =>
    apply ih
    rcases call.stores_perform d with hsame | ⟨c, op, hop⟩
    · rw [hsame]
      exact start
    · rw [hop]
      exact step c d op start

/-- The stores hold states of the engine alone, each with the identity pinned
for its peer, and every stored record has a current one. -/
structure Stores.Kept (s : Stores) : Prop where
  settled : ∀ peer, ∀ t ∈ (s.loadSession peer).states, t.Settled
  pinned : s.Pinned
  current : ∀ peer r, s.sessions.get? peer = some r → r.current.isSome

theorem Device.kept_serve (keyPair : KeyPair) (registrationId : UInt32) (entropy : Entropy)
    (calls : List Call) :
    ((Device.new keyPair registrationId entropy).serve calls).stores.Kept := by
  apply Device.serve_induction
  · intro c d op h
    refine ⟨(State.Settled.lasting c).perform h.settled op,
      (settles_perform c d op).pinned h.pinned, ?_⟩
    exact current_perform (d := d) h.current op
  · refine ⟨fun _ _ ht => ?_, Stores.pinned_create keyPair registrationId, fun _ _ hr => ?_⟩
    · exact absurd ht List.not_mem_nil
    · cases hr

/-- The state that reads an ordinary message is trusted. -/
theorem Stores.Kept.trusted {s : Stores} (h : s.Kept) {c : Config} {now : UInt64} {peer : Address}
    {m : RatchetMessage} {e e' : Entropy} {plain : Bytes} {position : Nat} {before after : State}
    (hreads : (s.loadSession peer).Reads c now m e plain position before after e') :
    s.isTrusted peer after.remoteIdentity = true := by
  obtain ⟨e₁, -, hread⟩ := hreads.reads
  have hpinned := h.pinned peer before (List.mem_of_getElem? hreads.place)
  rw [Stores.isTrusted_iff, hread.sameSession.remoteIdentity]
  exact .inr hpinned

/-- A device refuses an ordinary message exactly if its record does, and with the same fault. -/
theorem Stores.Kept.decryptRatchet_error {d : Device} (h : d.stores.Kept) {c : Config}
    {now : UInt64} {peer : Address} {m : RatchetMessage} {fault : SessionError} :
    (outcome (Engine.decryptRatchet c now peer m) d).1 = .error fault ↔
      (outcome ((d.stores.loadSession peer).decrypt c now peer m) d.entropy).1 = .error fault := by
  constructor
  · intro hdevice
    rcases hrecord : outcome ((d.stores.loadSession peer).decrypt c now peer m) d.entropy with
      ⟨refused | ⟨plain, r⟩, e⟩
    · obtain ⟨e', hrefused⟩ := Engine.decryptRatchet_refused (congrArg Prod.fst hrecord)
      rw [hrefused] at hdevice
      obtain rfl := Except.error.inj hdevice
      rfl
    · obtain ⟨position, before, after, hreads, rfl⟩ := Record.decrypt_ok.mp hrecord
      have hok : outcome (Engine.decryptRatchet c now peer m) d = (.ok plain, ⟨_, e⟩) :=
        Engine.decryptRatchet_ok.mpr ⟨position, before, after, hreads, h.trusted hreads, rfl⟩
      rw [hok] at hdevice
      cases hdevice
  · intro hrecord
    obtain ⟨e', hrefused⟩ := Engine.decryptRatchet_refused hrecord
    rw [hrefused]

/-- For a stored session, an ordinary message that is refused is refused with a
message fault, unless its ratchet key bars the step of a state that is tried:
just then the fault is one of the session, while nothing stored has changed. -/
theorem session_fault_iff_barred (keyPair : KeyPair) (registrationId : UInt32) (entropy : Entropy)
    (calls : List Call) (c : Config) (now : UInt64) {peer : Address} {bs : Bytes}
    {m : RatchetMessage}
    (stored :
      ((Device.new keyPair registrationId entropy).serve calls).stores.sessions.get? peer ≠ none)
    (parsed : RatchetMessage.parse bs = .ok m) :
    let d := (Device.new keyPair registrationId entropy).serve calls
    ((outcome (Engine.decryptRatchet c now peer m) d).1 =
      .error (.session (.invalidKey .lowOrder)) ↔
      (d.stores.loadSession peer).Barred c now m d.entropy) ∧
    ∀ fault d', outcome (Engine.decryptRatchet c now peer m) d = (.error fault, d') →
      d'.stores = d.stores ∧
      (fault.isMessageFatal = true ∨ fault = .session (.invalidKey .lowOrder)) := by
  intro d
  have hkept : d.stores.Kept := Device.kept_serve keyPair registrationId entropy calls
  have hversion : ∀ s ∈ (d.stores.loadSession peer).states, m.version = s.version := by
    intro s hs
    rw [(hkept.settled peer s hs).version]
    exact (RatchetMessage.parse_ok parsed).1
  have hstates : (d.stores.loadSession peer).states ≠ [] := by
    obtain ⟨r, hr⟩ := Option.ne_none_iff_exists'.mp stored
    obtain ⟨s, hs⟩ := Option.isSome_iff_exists.mp (hkept.current peer r hr)
    rw [Stores.loadSession, hr]
    simp [Record.states, hs]
  have hcases : ∀ fault, (outcome (Engine.decryptRatchet c now peer m) d).1 = .error fault →
      (∃ why, fault = .message why) ∨
        fault = .session (.invalidKey .lowOrder) ∧
        (d.stores.loadSession peer).Barred c now m d.entropy :=
    fun fault hfault => Record.decrypt_error (hkept.decryptRatchet_error.mp hfault) hstates hversion
  refine ⟨⟨fun hfault => ?_, fun hbarred => ?_⟩, fun fault d' hrun => ⟨?_, ?_⟩⟩
  · rcases hcases _ hfault with ⟨why, hwhy⟩ | ⟨-, hbarred⟩
    · cases hwhy
    · exact hbarred
  · exact hkept.decryptRatchet_error.mpr (hbarred.decrypt hversion peer)
  · exact Engine.decrypt_error (m := .ratchet m) hrun
  · rcases hcases fault (congrArg Prod.fst hrun) with ⟨why, rfl⟩ | ⟨hkey, -⟩
    · exact .inl rfl
    · exact .inr hkey

namespace Small

/-- The small suite, with one public key that no private key agrees with. -/
@[reducible] def strict : Suite :=
  { suite with agree := fun key their =>
    if their.bytes = .fill 32 0 then none else suite.agree key their }

/-- A device with a session to Bob. -/
def started : Device :=
  @Device.serve strict (device 1) [.operation {} (.process bob
    (@Bundle.mk 1 1 none 1 (device 7).stores.identity.keyPair.publicKey (List.replicate 64 0)
      (device 101).stores.identity.keyPair.publicKey))]

/-- Anyone can write this. -/
def forged : RatchetMessage :=
  @RatchetMessage.make strict currentVersion [] ⟨.fill 32 0⟩ 7 0 [1, 2, 3] default default

end Small

omit [Suite] in
/-- A message of a stranger is refused with a session fault. -/
theorem session_fault_iff_barred_forged :
    Small.started.stores.sessions.get? Small.bob ≠ none ∧
    RatchetMessage.parse Small.forged.serialized = .ok Small.forged ∧
    (outcome (@Engine.decryptRatchet Small.strict {} 0 Small.bob Small.forged) Small.started).1 =
      .error (.session (.invalidKey .lowOrder)) ∧
    @Record.Barred Small.strict {} 0 (Small.started.stores.loadSession Small.bob) Small.forged
      Small.started.entropy := by
  let := Small.strict
  have hstored : Small.started.stores.sessions.get? Small.bob ≠ none := by decide +kernel
  have hparse : RatchetMessage.parse Small.forged.serialized = .ok Small.forged := by decide +kernel
  have hfault : (outcome (Engine.decryptRatchet {} 0 Small.bob Small.forged) Small.started).1 =
      .error (.session (.invalidKey .lowOrder)) := by decide +kernel
  exact ⟨hstored, hparse, hfault,
    (session_fault_iff_barred _ _ _ _ {} 0 hstored hparse).1.mp hfault⟩

end DoubleRatchet
