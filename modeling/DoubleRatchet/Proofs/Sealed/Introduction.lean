import DoubleRatchet.Proofs.Engine.Records
import DoubleRatchet.Proofs.Sealed.Deliveries
import DoubleRatchet.Proofs.Sealed.Refusals
import Mathlib.Data.List.Induction

/-!
# Messages until the peer answers

The initiator of a session does not know whether the peer has built its side yet.
So it repeats with every message what the peer needs for that, until it has read
one from the peer on this very state, wherever the state stands in the record by
then. The career of a state says how it was set up and whether it has read a
message since. Main statement: `wrapped_until_answered`.
-/
namespace DoubleRatchet

/-- How a state was set up: from a bundle and with a base key, or for a first message. -/
inductive Role
  | initiator (b : Bundle) (baseKey : PublicKey)
  | responder

/-- What the messages of a state repeat. -/
def Role.introduction : Role → (answered : Bool) → Option PendingPreKey
  | initiator b baseKey, false => some ⟨b.preKey.map Prod.fst, b.signedPreKeyId, baseKey⟩
  | _, _ => none

/-- What a call has the session with a peer write. -/
def Call.writes? : Call → Option (Address × Bytes)
  | operation _ (.encrypt peer plain) => some (peer, plain)
  | sealFor destination _ plain false => some (destination, plain)
  | _ => none

variable [Suite]

/-- A call sets up a state for a peer. -/
inductive SetsUp (peer : Address) (d : Device) : Call → Role → State → Prop
  | initiator {c : Config} {b : Bundle} {base sending : KeyPair} {agreed : State}
      (agree : (Engine.initiator d.stores b base).state sending = .ok agreed) :
      SetsUp peer d (.operation c (.process peer b)) (.initiator b base.publicKey)
        (Engine.started d.stores b base agreed)
  | responder {call : Call} {c : Config} {now : UInt64} {m : PreKeyMessage} {own : State}
      (asked : call.reads? d = some (c, .decrypt now peer (.preKey m)))
      (respond : Engine.respond d.stores m = .ok own) : SetsUp peer d call .responder own

/-- What a call makes of a state of the record for a peer, and whether the state reads
a message in it. -/
inductive Fares (peer : Address) (d : Device) (call : Call) : State → (reads : Bool) → State → Prop
  | kept (s : State) : Fares peer d call s false s
  | writes {plain : Bytes} {s t : State} {m : Message} (asked : call.writes? = some (peer, plain))
      (current : (d.stores.loadSession peer).current = some s)
      (written : s.encrypt plain = .ok (m, t)) :
      Fares peer d call s false t
  | reads {c : Config} {now : UInt64} {m : Message} {x : Engine.Reading}
      (asked : call.reads? d = some (c, .decrypt now peer m))
      (reading : Engine.reading? c now peer m d = some x)
      (accepted : call.succeeds d = true) : Fares peer d call x.before true x.after

/-- A state comes, through a call, from one that was stored before or that the call sets up. -/
def Traced (peer : Address) (d : Device) (call : Call) (t : State) : Prop :=
  ∃ s reads, (s ∈ d.states peer ∨ ∃ role, SetsUp peer d call role s) ∧ Fares peer d call s reads t

section Traced

variable {peer other : Address} {d : Device} {call : Call} {t : State} {c : Config}

theorem traced_of_same (same : (call.perform d).stores = d.stores)
    (h : t ∈ (call.perform d).states peer) :
    Traced peer d call t := by
  rw [Device.states, same] at h
  exact ⟨t, false, .inl h, .kept t⟩

/-- A message that is written, to be sealed or not, moves the current state on. -/
theorem traced_of_writes {plain : Bytes} (asked : call.writes? = some (other, plain))
    (writes : (call.perform d).stores = ((Operation.encrypt other plain).perform c d).stores)
    (h : t ∈ (call.perform d).states peer) : Traced peer d call t := by
  rw [Device.states, writes] at h
  obtain ⟨s, hs | hbuilt, hbecomes⟩ := mem_states_perform h
  · cases hbecomes with
    | kept => exact ⟨t, false, .inl hs, .kept t⟩
    | writes current written => exact ⟨s, false, .inl hs, .writes asked current written⟩
  · cases hbuilt

/-- A message that comes in, sealed or not, is read by one state, or by none and nothing changes. -/
theorem traced_of_reads {now : UInt64} {m : Message}
    (asked : call.reads? d = some (c, .decrypt now other m))
    (h : t ∈ (call.perform d).states peer) : Traced peer d call t := by
  obtain ⟨hreads, hsucceeds⟩ := Call.reads_perform asked
  rcases hrun : outcome (Engine.decrypt c now other m) d with ⟨fault | plain, d'⟩
  · refine traced_of_same (hreads.trans ?_) h
    rw [Operation.perform, hrun]
    exact Engine.decrypt_error hrun
  · have haccepted : call.succeeds d = true := by
      rw [hsucceeds, Operation.act, outcome_map, hrun]
      rfl
    rw [Device.states, hreads] at h
    obtain ⟨s, hs, hbecomes⟩ := mem_states_perform h
    have hsource : s ∈ d.states peer ∨ ∃ role, SetsUp peer d call role s := by
      refine hs.imp_right fun hbuilt => ?_
      cases hbuilt with
      | responder respond => exact ⟨.responder, .responder asked respond⟩
    cases hbecomes with
    | kept => exact ⟨t, false, hsource, .kept t⟩
    | reads reading => exact ⟨_, true, hsource, .reads asked reading haccepted⟩

/-- So it is with every state that is stored after a call. -/
theorem traced_perform (h : t ∈ (call.perform d).states peer) : Traced peer d call t := by
  cases call with
  | operation c op =>
    cases op with
    | generate deviceId start count now =>
      rw [Device.states, Call.perform, loadSession_generate] at h
      exact ⟨t, false, .inl h, .kept t⟩
    | process other b =>
      obtain ⟨s, hs, hbecomes⟩ := mem_states_perform h
      cases hbecomes
      refine ⟨t, false, hs.imp_right fun hbuilt => ?_, .kept t⟩
      cases hbuilt with
      | initiator agree => exact ⟨_, .initiator agree⟩
    | encrypt other plain => exact traced_of_writes (c := c) rfl rfl h
    | decrypt now other m => exact traced_of_reads rfl h
  | sealFor destination certificate plain fallback =>
    cases fallback with
    | true =>
      exact traced_of_same
        (SealedEngine.keeps_encrypt_fallback destination certificate plain d) h
    | false =>
      rcases SealedEngine.stores_encrypt destination certificate plain false d with hsame | hencrypt
      · exact traced_of_same hsame h
      · exact traced_of_writes (c := {}) rfl hencrypt h
  | openSealed c now root input time localAddress =>
    cases hdelivered : SealedEngine.delivered d root input time localAddress with
    | none => exact traced_of_same (SealedEngine.decrypt_undelivered c now hdelivered) h
    | some delivery =>
      have asked : Call.reads? d (.openSealed c now root input time localAddress) =
          some (c, .decrypt now delivery.1 delivery.2) := by
        rw [Call.reads?, hdelivered]
        rfl
      exact traced_of_reads asked h

end Traced

/-- A stored state has come through the calls since `start`: how it was set up, and whether it has
read a message since. -/
inductive Career (peer : Address) (start : Device) :
    List Call → Role → (answered : Bool) → State → Prop
  | begins {calls : List Call} {call : Call} {role : Role} {s t : State} {reads : Bool}
      (sets : SetsUp peer (start.serve calls) call role s)
      (fares : Fares peer (start.serve calls) call s reads t)
      (stored : t ∈ (start.serve (calls ++ [call])).states peer) :
      Career peer start (calls ++ [call]) role reads t
  | goesOn {calls : List Call} {call : Call} {role : Role} {s t : State} {answered reads : Bool}
      (before : Career peer start calls role answered s)
      (fares : Fares peer (start.serve calls) call s reads t)
      (stored : t ∈ (start.serve (calls ++ [call])).states peer) :
      Career peer start (calls ++ [call]) role (answered || reads) t

theorem Device.serve_append_singleton (d : Device) (calls : List Call) (call : Call) :
    d.serve (calls ++ [call]) = call.perform (d.serve calls) := List.foldl_concat ..

/-- Every state that a device stores has a career. -/
theorem exists_career (keyPair : KeyPair) (registrationId : UInt32) (entropy : Entropy)
    (calls : List Call) {peer : Address} {s : State}
    (h : s ∈ ((Device.new keyPair registrationId entropy).serve calls).states peer) :
    ∃ role answered, Career peer (.new keyPair registrationId entropy) calls role answered s := by
  induction calls using List.reverseRecOn generalizing s with
  | nil => exact absurd h List.not_mem_nil
  | append_singleton calls call ih =>
    have hlast := h
    rw [Device.serve_append_singleton] at hlast
    obtain ⟨r, reads, hr | ⟨role, hsets⟩, hfares⟩ := traced_perform hlast
    · obtain ⟨role, answered, hcareer⟩ := ih hr
      exact ⟨role, _, .goesOn hcareer hfares h⟩
    · exact ⟨role, _, .begins hsets hfares h⟩

/-- A state introduces its party as its role and its answer ask for. -/
structure State.Introduces (s : State) (identity : PublicKey) (registrationId : UInt32)
    (role : Role) (answered : Bool) : Prop where
  pending : s.pending = role.introduction answered
  identity : s.localIdentity = identity
  registrationId : s.localRegistrationId = registrationId

theorem SetsUp.introduces {peer : Address} {d : Device} {call : Call} {role : Role} {s : State}
    (h : SetsUp peer d call role s) :
    s.Introduces d.stores.identity.keyPair.publicKey
      d.stores.identity.registrationId role false := by
  cases h with
  | initiator agree =>
    obtain ⟨secrets, root, chain, -, -, rfl⟩ := Initiator.state_ok.mp agree
    exact ⟨rfl, rfl, rfl⟩
  | responder _ respond =>
    obtain ⟨signed, oneTime, agreed, -, -, hagreed, rfl⟩ := Engine.respond_ok.mp respond
    obtain ⟨secrets, -, rfl⟩ := Responder.state_ok.mp hagreed
    exact ⟨rfl, rfl, rfl⟩

/-- Reading ends the introduction, and nothing else does. -/
theorem Fares.introduces {peer : Address} {d : Device} {call : Call} {s t : State} {reads : Bool}
    (h : Fares peer d call s reads t) {identity : PublicKey} {registrationId : UInt32} {role : Role}
    {answered : Bool} (hs : s.Introduces identity registrationId role answered) :
    t.Introduces identity registrationId role (answered || reads) := by
  cases h with
  | kept => rwa [Bool.or_false]
  | writes _ _ written =>
    have hsession := State.sameSession_encrypt written
    obtain ⟨-, -, rfl⟩ := State.encrypt_ok.mp written
    rw [Bool.or_false]
    exact ⟨hs.pending, hsession.localIdentity.trans hs.identity,
      hsession.localRegistrationId.trans hs.registrationId⟩
  | reads _ reading _ =>
    obtain ⟨-, plain, e', -, e₁, -, hreads⟩ := Engine.reading?_eq_some.mp reading
    have hsession := hreads.sameSession
    rw [Bool.or_true]
    refine ⟨hreads.pending.trans ?_, hsession.localIdentity.trans hs.identity,
      hsession.localRegistrationId.trans hs.registrationId⟩
    cases role <;> rfl

/-- A party keeps its own identity and its registration id, whatever it is asked for. -/
theorem Device.identity_serve (d : Device) (calls : List Call) :
    ∃ known, (d.serve calls).stores.identity = { d.stores.identity with known } := by
  refine Device.serve_induction (P := fun s => ∃ known,
    s.identity = { d.stores.identity with known }) ?_ ⟨_, rfl⟩ calls
  rintro c d' op ⟨known, hidentity⟩
  obtain ⟨known', hidentity'⟩ := identity_perform c d' op
  exact ⟨known', by rw [hidentity', hidentity]⟩

theorem Career.introduces {peer : Address} {start : Device} {calls : List Call} {role : Role}
    {answered : Bool} {s : State} (h : Career peer start calls role answered s) :
    s.Introduces start.stores.identity.keyPair.publicKey
      start.stores.identity.registrationId role answered := by
  induction h with
  | @begins calls _ _ _ _ reads sets fares _ =>
    obtain ⟨known, hidentity⟩ := start.identity_serve calls
    have hset := sets.introduces
    rw [hidentity] at hset
    exact Bool.false_or reads ▸ fares.introduces hset
  | goesOn _ fares _ ih => exact fares.introduces ih

/-- Whatever a new device has been asked for, every state that it stores has a career.
Until a state that was set up from a bundle has read a message, whatever is written on
it is wrapped: it carries the base key of the session, the ids of the pre-keys of the
bundle, and the party's registration id and identity. Whatever is written on it
afterwards is not wrapped, and what is written on a state that was set up for a first
message never is. -/
theorem wrapped_until_answered (keyPair : KeyPair) (registrationId : UInt32) (entropy : Entropy)
    (calls : List Call) (peer : Address) :
    let start := Device.new keyPair registrationId entropy
    let d := start.serve calls
    (∀ s ∈ d.states peer, ∃ role answered, Career peer start calls role answered s) ∧
    ∀ role answered s, Career peer start calls role answered s →
    (d.stores.loadSession peer).current = some s →
      ∀ plain m d', outcome (Engine.encrypt peer plain) d = (.ok m, d') →
        match role, answered with
        | .initiator b baseKey, false => ∃ p, m = .preKey p ∧ p.baseKey = baseKey ∧
            p.preKeyId = b.preKey.map Prod.fst ∧ p.signedPreKeyId = b.signedPreKeyId ∧
            p.registrationId = registrationId ∧ p.identityKey = keyPair.publicKey
        | _, _ => ∃ w, m = .ratchet w := by
  intro start d
  refine ⟨fun s hs => exists_career keyPair registrationId entropy calls hs, ?_⟩
  intro role answered s hcareer hcurrent plain m d' hrun
  obtain ⟨hpending, hidentity, hregistration⟩ := hcareer.introduces
  obtain ⟨s', after, hcurrent', hwritten, -, -⟩ := Engine.encrypt_ok.mp hrun
  obtain rfl := Option.some_inj.mp (hcurrent.symm.trans hcurrent')
  obtain ⟨-, rfl, -⟩ := State.encrypt_ok.mp hwritten
  rw [State.wrapped, hpending]
  cases role with
  | initiator b baseKey =>
    cases answered with
    | false => exact ⟨_, rfl, rfl, rfl, rfl, hregistration, hidentity⟩
    | true => exact ⟨_, rfl⟩
  | responder => exact ⟨_, rfl⟩

namespace Small

/-- What Bob publishes, as Alice reads it. -/
def invitation : Bundle :=
  let published : Option Bundle := do
    Bundle.ofPublished (← (PreKeys.currentBundle publisher.stores 1).toOption) none |>.toOption
  published.getD returned

/-- What Bob answers to Alice's greeting. -/
def acceptance : Message :=
  match (write alice [111, 107] acquainted).1 with
  | .ok m => m
  | .error _ => greeting {}

/-- Alice starts a session with Bob. -/
def introduced : Device := @Device.serve suite (device 1) [.operation {} (.process bob invitation)]

/-- And has read his answer. -/
def answered : Device :=
  @Device.serve suite (device 1) ([.operation {} (.process bob invitation)] ++
    [.operation {} (.decrypt 0 bob acceptance)])

end Small

omit [Suite] in
/-- Alice's first message is wrapped and names the pre-keys that Bob published; after his answer
her messages are not. -/
theorem wrapped_until_answered_greeting :
    (∃ p, (outcome (@Engine.encrypt Small.suite Small.bob [104, 105]) Small.introduced).1 =
      .ok (.preKey p) ∧
      p.preKeyId = Small.invitation.preKey.map Prod.fst ∧
      p.signedPreKeyId = Small.invitation.signedPreKeyId) ∧
    ∃ w, (outcome (@Engine.encrypt Small.suite Small.bob [104, 105]) Small.answered).1 =
      .ok (.ratchet w) := by
  let := Small.suite
  have hprocessed : (outcome (Engine.processBundle {} Small.bob Small.invitation)
      (Small.device 1)).1 = .ok () := by
    decide +kernel
  have hread : (outcome (Engine.decrypt {} 0 Small.bob Small.acceptance) Small.introduced).1 =
      .ok [111, 107] := by
    decide +kernel
  have hfirst : (outcome (Engine.encrypt Small.bob [104, 105]) Small.introduced).1.isOk = true := by
    decide +kernel
  have hlater : (outcome (Engine.encrypt Small.bob [104, 105]) Small.answered).1.isOk = true := by
    decide +kernel
  have hkind : Small.acceptance = .ratchet Small.acceptance.inner := by decide +kernel
  -- the state that Alice starts with, alone in its record
  obtain ⟨d₁, hstart⟩ := outcome_of_result hprocessed
  have hintroduced : Small.introduced = d₁ := congrArg Prod.snd hstart
  obtain ⟨-, -, base, sending, e₁, e₂, agreed, -, -, hagree, rfl⟩ :=
    Engine.processBundle_ok.mp hstart
  have hrecord : Small.introduced.stores.loadSession Small.bob =
      ⟨some (Engine.started (Small.device 1).stores Small.invitation base agreed), []⟩ := by
    rw [hintroduced, Stores.loadSession_committed_self]
    rfl
  have hbegins : Career Small.bob (Small.device 1)
      ([] ++ [.operation {} (.process Small.bob Small.invitation)])
      (.initiator Small.invitation base.publicKey) false
      (Engine.started (Small.device 1).stores Small.invitation base agreed) := by
    refine .begins (.initiator hagree) (.kept _) ?_
    change _ ∈ (Small.introduced.stores.loadSession Small.bob).states
    rw [hrecord]
    exact List.mem_cons_self
  -- what it has become once it has read the answer
  obtain ⟨d₂, hanswer⟩ := outcome_of_result hread
  have hanswered : Small.answered = d₂ := congrArg Prod.snd hanswer
  obtain ⟨x, hopen, hreads, -, hstores⟩ := Engine.decrypt_ok.mp hanswer
  have hcurrent : (Small.answered.stores.loadSession Small.bob).current = some x.after := by
    rw [hanswered, hstores, Stores.loadSession_withoutUsed, Stores.loadSession_committed_self]
    rfl
  have hbefore :
      x.before = Engine.started (Small.device 1).stores Small.invitation base agreed := by
    have hplace := List.mem_of_getElem? hreads.place
    rw [hkind] at hopen
    rw [← (Prod.mk.inj (Except.ok.inj hopen)).1, hrecord] at hplace
    exact List.mem_singleton.mp hplace
  have hgoesOn :
      Career Small.bob (Small.device 1) ([.operation {} (.process Small.bob Small.invitation)] ++
      [.operation {} (.decrypt 0 Small.bob Small.acceptance)])
      (.initiator Small.invitation base.publicKey)
      (false || true) x.after := by
    refine .goesOn hbegins
      (hbefore ▸ .reads rfl (Engine.reading?_eq_some.mpr ⟨hopen, _, _, hreads⟩) ?_) ?_
    · change (outcome
        (Operation.act {} (.decrypt 0 Small.bob Small.acceptance)) Small.introduced).1.isOk = true
      rw [Operation.act, outcome_map, hanswer]
      rfl
    · exact List.mem_append_left _ (Option.mem_toList.mpr hcurrent)
  constructor
  · obtain ⟨m, d', hrun⟩ := outcome_of_isOk hfirst
    obtain ⟨p, rfl, -, hone, hsigned, -⟩ := (wrapped_until_answered _ _ _ _ _).2 _ _ _ hbegins
      (congrArg Record.current hrecord) _ _ _ hrun
    exact ⟨p, congrArg Prod.fst hrun, hone, hsigned⟩
  · obtain ⟨m, d', hrun⟩ := outcome_of_isOk hlater
    obtain ⟨w, rfl⟩ := (wrapped_until_answered _ _ _ _ _).2 _ _ _ hgoesOn hcurrent _ _ _ hrun
    exact ⟨w, congrArg Prod.fst hrun⟩

end DoubleRatchet
