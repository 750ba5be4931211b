import DoubleRatchet.Proofs.Session.Trial

/-!
# Refusals of a message

A state refuses a message with a message fault, unless the message speaks
another version or its ratchet key admits no agreement. The states of a record
are tried in turn, and the list of what comes of each attempt decides what the
record makes of the message: the first attempt that does not let the next state
be tried, else a fault of the message.
-/
namespace DoubleRatchet

namespace Record

/-- What comes of one attempt: a fault, or the plaintext and the state after it. -/
abbrev Trial := Except SessionError (Bytes × State)

/-- The attempt failed with a fault that lets the next state be tried. -/
def Trial.Passes (t : Trial) : Prop := ∃ fault, t = .error fault ∧ mayTryNext fault = true

/-- The fault that the attempts come to when none succeeds. -/
inductive Blames (peer : Address) : List Trial → SessionError → Prop
  | noState : Blames peer [] (.session (.noSession peer))
  | final {passed rest : List Trial} {fault : SessionError} (pass : ∀ t ∈ passed, t.Passes)
      (stops : mayTryNext fault = false) : Blames peer (passed ++ .error fault :: rest) fault
  | tooFar {invalid rest : List Trial} {counter jump limit : UInt32}
      (first : ∀ t ∈ invalid, t = .error (.message .invalid)) (pass : ∀ t ∈ rest, t.Passes) :
      Blames peer (invalid ++ .error (.message (.tooManySkipped counter jump limit)) :: rest)
        (.message (.tooManySkipped counter jump limit))
  | invalid {tried : List Trial} (some : tried ≠ [])
      (all : ∀ t ∈ tried, t = .error (.message .invalid)) :
      Blames peer tried (.message .invalid)

theorem mayTryNext_iff {fault : SessionError} :
    mayTryNext fault = true ↔ fault = .message .invalid ∨
      ∃ counter jump limit, fault = .message (.tooManySkipped counter jump limit) := by
  unfold mayTryNext
  split <;> simp_all

/-- Of faults that let the next state be tried, the first refusal for too long a jump
is reported. -/
theorem lastFault_cases {faults : List SessionError}
    (pass : ∀ fault ∈ faults, mayTryNext fault = true) :
    (∀ fault ∈ faults, fault = .message .invalid) ∧ lastFault faults = .message .invalid ∨
      ∃ invalid counter jump limit rest,
        faults = invalid ++ .message (.tooManySkipped counter jump limit) :: rest ∧
        (∀ fault ∈ invalid, fault = .message .invalid) ∧
        lastFault faults = .message (.tooManySkipped counter jump limit) := by
  induction faults with
  | nil => simp [lastFault]
  | cons fault faults ih =>
    rcases mayTryNext_iff.mp (pass fault List.mem_cons_self) with rfl | ⟨counter, jump, limit, rfl⟩
    · have hrest := ih fun fault hf => pass fault (List.mem_cons_of_mem _ hf)
      rcases hrest with ⟨hall, hlast⟩ | ⟨invalid, counter, jump, limit, rest, rfl, hall, hlast⟩
      · exact .inl ⟨List.forall_mem_cons.mpr ⟨rfl, hall⟩, hlast⟩
      · exact .inr ⟨_ :: invalid, counter, jump, limit, rest, rfl,
          List.forall_mem_cons.mpr ⟨rfl, hall⟩, hlast⟩
    · exact .inr ⟨[], counter, jump, limit, faults, rfl, by simp, rfl⟩

/-- The attempts that all pass are the faults of them. -/
theorem eq_map_error {tried : List Trial} (pass : ∀ t ∈ tried, t.Passes) :
    ∃ faults : List SessionError, tried = faults.map .error ∧ ∀ fault ∈ faults,
      mayTryNext fault = true := by
  induction tried with
  | nil => exact ⟨[], rfl, by simp⟩
  | cons t tried ih =>
    obtain ⟨faults, rfl, hnext⟩ := ih fun t ht => pass t (List.mem_cons_of_mem _ ht)
    obtain ⟨fault, rfl, hfault⟩ := pass t List.mem_cons_self
    exact ⟨fault :: faults, rfl, List.forall_mem_cons.mpr ⟨hfault, hnext⟩⟩

/-- Attempts all pass, or a first one does not. -/
theorem passes_or_decided (tried : List Trial) : (∀ t ∈ tried, t.Passes) ∨
    ∃ passed t rest, tried = passed ++ t :: rest ∧ (∀ t ∈ passed, t.Passes) ∧ ¬t.Passes := by
  induction tried with
  | nil => simp
  | cons t tried ih =>
    by_cases ht : t.Passes
    · rcases ih with hall | ⟨passed, u, rest, rfl, hpassed, hu⟩
      · exact .inl (List.forall_mem_cons.mpr ⟨ht, hall⟩)
      · exact .inr ⟨t :: passed, u, rest, rfl, List.forall_mem_cons.mpr ⟨ht, hpassed⟩, hu⟩
    · exact .inr ⟨[], t, tried, rfl, by simp, ht⟩

end Record

variable [Suite]

namespace State

/-- A ratchet step to a key fails: one of its two agreements gives nothing. -/
def Barred (s : State) (their : PublicKey) (e : Entropy) : Prop :=
  Suite.agree s.sender.keyPair.privateKey their = none ∨
    Suite.agree (Draw.keyPair e).1.privateKey their = none

/-- Why a state refuses a message. -/
inductive Refuses (s : State) (m : RatchetMessage) (e : Entropy) : SessionError → Prop
  | version (differs : m.version ≠ s.version) :
      Refuses s m e (.session (.unsupportedVersion m.version))
  | key (agrees : m.version = s.version) (new : s.receiverChain? m.ratchetKey = none)
      (barred : s.Barred m.ratchetKey e) : Refuses s m e (.session (.invalidKey .lowOrder))
  | message (fault : MessageFault) : Refuses s m e (.message fault)

/-- A chain is not found if there is none and the step that would make one fails. -/
theorem receivingChain_error {c : Config} {s : State} {their : PublicKey} {e : Entropy}
    {fault : SessionError} :
    (outcome (s.receivingChain c their) e).1 = .error fault ↔
      s.receiverChain? their = none ∧ s.Barred their e ∧
      fault = .session (.invalidKey .lowOrder) := by
  unfold receivingChain
  cases hr : s.receiverChain? their with
  | some chain => simp
  | none =>
    simp only [outcome_bind, receivingChain.liftExcept, outcome_mk, true_and]
    cases hreceive : s.rootKey.createChain their s.sender.keyPair.privateKey with
    | error key =>
      obtain ⟨hnone, rfl⟩ := RootKey.createChain_error.mp hreceive
      simp [Barred, hnone, SessionError.ofKey, eq_comm]
    | ok received =>
      obtain ⟨first, hfirst, -⟩ := RootKey.createChain_ok.mp hreceive
      cases hsend : received.1.createChain their (Draw.keyPair e).1.privateKey with
      | error key =>
        obtain ⟨hnone, rfl⟩ := RootKey.createChain_error.mp hsend
        simp [Barred, hnone, hsend, SessionError.ofKey, eq_comm]
      | ok sent =>
        obtain ⟨second, hsecond, -⟩ := RootKey.createChain_ok.mp hsend
        simp [Barred, hfirst, hsecond, hsend]

/-- Whoever is ready holds a chain for the ratchet key, so that its keys are
only refused for the counter. -/
theorem Ready.mem {c : Config} {s t : State} {their : PublicKey} {e e' : Entropy} {chain : ChainKey}
    (h : Ready c s their e chain t e') : their ∈ t.receivers.map ReceiverChain.ratchetKey := by
  cases h with
  | held hold => exact List.mem_map_of_mem (mem_of_receiverChain? hold)
  | stepped => simp [ratcheted]

theorem keysAt_error {c : Config} {now : UInt64} {s : State} {their : PublicKey} {chain : ChainKey}
    {counter : UInt32} {fault : SessionError}
    (held : their ∈ s.receivers.map ReceiverChain.ratchetKey)
    (h : keysAt c now s their chain counter = .error fault) : ∃ why, fault = .message why := by
  unfold keysAt at h
  split at h
  · split at h
    · cases h
    · exact ⟨_, (Except.error.inj h).symm⟩
  · simp only [cacheLinks_eq, setReceiverChain] at h
    split at h
    · exact ⟨_, (Except.error.inj h).symm⟩
    · obtain ⟨chs, hset⟩ := setReceiver_of_mem held
        (chain.advance (counter - chain.index).toNat).next
      simp [hset] at h

theorem decrypt_error {c : Config} {now : UInt64} {s : State} {m : RatchetMessage} {e : Entropy}
    {fault : SessionError} (h : (outcome (s.decrypt c now m) e).1 = .error fault) :
    s.Refuses m e fault := by
  unfold decrypt at h
  by_cases version : m.version = s.version
  · rw [if_neg (not_not_intro version), outcome_bind] at h
    rcases hready : outcome ((s.expire c now).receivingChain c m.ratchetKey) e with
      ⟨refused | ⟨chain, ready⟩, e₁⟩
    · rw [hready] at h
      obtain ⟨hnew, hbarred, rfl⟩ := receivingChain_error.mp (congrArg Prod.fst hready)
      obtain rfl := Except.error.inj h
      rw [receiverChain?_expire] at hnew
      rw [expire_eq] at hbarred
      exact .key version hnew hbarred
    · rw [hready] at h
      simp only [outcome_bind, outcome_mk] at h
      cases hkeys : keysAt c now ready m.ratchetKey chain m.counter with
      | error refused =>
        obtain ⟨why, rfl⟩ := keysAt_error (receivingChain_ok.mp hready).mem hkeys
        rw [hkeys] at h
        obtain rfl := Except.error.inj h
        exact .message why
      | ok supplied =>
        rw [hkeys] at h
        simp only [outcome_ite] at h
        split at h
        · obtain rfl := Except.error.inj h
          exact .message .invalid
        · split at h
          · cases h
          · obtain rfl := Except.error.inj h
            exact .message .invalid
  · rw [if_pos version] at h
    obtain rfl := Except.error.inj h
    exact .version version

/-- A message of the right version whose ratchet key is new and bars the step is
refused for its key, whatever else it holds. -/
theorem decrypt_barred {s : State} {m : RatchetMessage} {e : Entropy}
    (version : m.version = s.version) (new : s.receiverChain? m.ratchetKey = none)
    (barred : s.Barred m.ratchetKey e) (c : Config) (now : UInt64) :
    (outcome (s.decrypt c now m) e).1 = .error (.session (.invalidKey .lowOrder)) := by
  have hnew : (s.expire c now).receiverChain? m.ratchetKey = none := by
    rw [receiverChain?_expire, new]
  have hbarred : (s.expire c now).Barred m.ratchetKey e := by
    rw [expire_eq]
    exact barred
  obtain ⟨e', hrefused⟩ := outcome_of_result (receivingChain_error.mpr ⟨hnew, hbarred, rfl⟩)
  unfold decrypt
  rw [if_neg (not_not_intro version), outcome_bind, hrefused]

end State

namespace Record

/-- What comes of a message on states in turn, each attempt with the randomness
that the one before it left. -/
def trials (c : Config) (now : UInt64) (m : RatchetMessage) : List State → Entropy → List Trial
  | [], _ => []
  | s :: rest, e =>
    (outcome (s.decrypt c now m) e).1 :: trials c now m rest (outcome (s.decrypt c now m) e).2

/-- The first attempt that does not pass decides, if there is one. -/
theorem tryStates_decided {c : Config} {now : UInt64} {m : RatchetMessage} {states : List State}
    {e : Entropy} {passed rest : List Trial} {t : Trial}
    (h : trials c now m states e = passed ++ t :: rest) (pass : ∀ t ∈ passed, t.Passes)
    (decides : ¬t.Passes) (position : Nat) (failed : List SessionError) :
    (outcome (tryStates c now m position states failed) e).1 =
      t.map fun (plain, after) => (position + passed.length, plain, after) := by
  induction states generalizing e passed position failed with
  | nil => simp [trials] at h
  | cons s states ih =>
    rw [trials] at h
    rw [tryStates_cons]
    rcases hs : outcome (s.decrypt c now m) e with ⟨tried, e₁⟩
    rw [hs] at h
    cases passed with
    | nil =>
      obtain ⟨rfl, -⟩ := List.cons.inj h
      cases tried with
      | ok result => rfl
      | error fault =>
        have hstop : mayTryNext fault = false := by
          rw [Bool.eq_false_iff]
          exact fun hnext => decides ⟨fault, rfl, hnext⟩
        simp only [hstop, Bool.false_eq_true, if_false]
        rfl
    | cons first passed =>
      obtain ⟨rfl, hrest⟩ := List.cons.inj h
      obtain ⟨fault, rfl, hnext⟩ := pass _ List.mem_cons_self
      simp only [hnext, if_true]
      rw [ih hrest (fun t ht => pass t (List.mem_cons_of_mem _ ht)), List.length_cons]
      simp only [Nat.add_assoc, Nat.add_comm 1]

/-- If all attempts pass, `lastFault` has the last word. -/
theorem tryStates_passed {c : Config} {now : UInt64} {m : RatchetMessage} {states : List State}
    {e : Entropy} {faults : List SessionError} (h : trials c now m states e = faults.map .error)
    (pass : ∀ fault ∈ faults, mayTryNext fault = true) (position : Nat)
    (failed : List SessionError) :
    (outcome (tryStates c now m position states failed) e).1 =
      .error (lastFault (failed ++ faults)) := by
  induction states generalizing e faults position failed with
  | nil =>
    obtain rfl : faults = [] := by simpa [trials] using h.symm
    rw [List.append_nil]
    rfl
  | cons s states ih =>
    rw [trials] at h
    rw [tryStates_cons]
    rcases hs : outcome (s.decrypt c now m) e with ⟨tried, e₁⟩
    rw [hs] at h
    cases faults with
    | nil => simp at h
    | cons fault faults =>
      obtain ⟨rfl, hrest⟩ := List.cons.inj h
      simp only [pass fault List.mem_cons_self, if_true]
      rw [ih hrest fun fault hf => pass fault (List.mem_cons_of_mem _ hf), List.append_assoc]
      rfl

theorem length_trials (c : Config) (now : UInt64) (m : RatchetMessage) (states : List State)
    (e : Entropy) :
    (trials c now m states e).length = states.length := by
  induction states generalizing e with
  | nil => rfl
  | cons s states ih => exact congrArg (· + 1) (ih _)

theorem trials_eq_nil {c : Config} {now : UInt64} {m : RatchetMessage} {states : List State}
    {e : Entropy} :
    trials c now m states e = [] ↔ states = [] := by
  rw [← List.length_eq_zero_iff, length_trials, List.length_eq_zero_iff]

/-- The attempts in front of one are those of states that all fail, if they pass. -/
theorem exists_of_trials {c : Config} {now : UInt64} {m : RatchetMessage} {states : List State}
    {e : Entropy} {passed rest : List Trial} {t : Trial}
    (h : trials c now m states e = passed ++ t :: rest) (pass : ∀ t ∈ passed, t.Passes) :
    ∃ failing s later e₁, states = failing ++ s :: later ∧ Passed c now m failing e e₁ ∧
      (outcome (s.decrypt c now m) e₁).1 = t := by
  induction states generalizing e passed with
  | nil => simp [trials] at h
  | cons s states ih =>
    rw [trials] at h
    cases passed with
    | nil => exact ⟨[], s, states, e, rfl, .nil, (List.cons.inj h).1⟩
    | cons first passed =>
      obtain ⟨hfirst, hrest⟩ := List.cons.inj h
      obtain ⟨fault, rfl, hnext⟩ := pass first List.mem_cons_self
      obtain ⟨e₂, hfails⟩ := outcome_of_result hfirst
      rw [hfails] at hrest
      obtain ⟨failing, u, later, e₁, rfl, hpassed, hu⟩ :=
        ih hrest fun t ht => pass t (List.mem_cons_of_mem _ ht)
      exact ⟨s :: failing, u, later, e₁, rfl, .cons hfails hnext hpassed, hu⟩

theorem Passed.trials {c : Config} {now : UInt64} {m : RatchetMessage} {failing : List State}
    {e e₁ : Entropy} (h : Passed c now m failing e e₁) (later : List State) :
    ∃ passed, Record.trials c now m (failing ++ later) e =
      passed ++ Record.trials c now m later e₁ ∧
      ∀ t ∈ passed, t.Passes := by
  induction h with
  | nil => exact ⟨[], rfl, by simp⟩
  | cons fails next pass ih =>
    obtain ⟨passed, hpassed, hall⟩ := ih
    refine ⟨.error _ :: passed, ?_, List.forall_mem_cons.mpr ⟨⟨_, rfl, next⟩, hall⟩⟩
    rw [List.cons_append, Record.trials, fails, hpassed, List.cons_append]

/-- An attempt that fails is a refusal by one of the states. -/
theorem refuses_of_mem_trials {c : Config} {now : UInt64} {m : RatchetMessage} {states : List State}
    {e : Entropy} {fault : SessionError} (h : .error fault ∈ trials c now m states e) :
    ∃ s ∈ states, ∃ e₁, s.Refuses m e₁ fault := by
  induction states generalizing e with
  | nil => simp [trials] at h
  | cons s states ih =>
    rcases List.mem_cons.mp h with h | h
    · exact ⟨s, List.mem_cons_self, e, State.decrypt_error h.symm⟩
    · obtain ⟨t, ht, hrefuses⟩ := ih h
      exact ⟨t, List.mem_cons_of_mem _ ht, hrefuses⟩

/-- The first attempt that does not pass succeeds: the record is that of its state. -/
theorem decrypt_accepts {c : Config} {now : UInt64} {r : Record} {m : RatchetMessage} {e : Entropy}
    {passed rest : List Trial} {plain : Bytes} {after : State}
    (h : trials c now m r.states e = passed ++ .ok (plain, after) :: rest)
    (pass : ∀ t ∈ passed, t.Passes) (peer : Address) :
    (outcome (r.decrypt c now peer m) e).1 =
      .ok (plain, ⟨some after, r.others c.maxArchivedStates passed.length⟩) := by
  have hlt : passed.length < r.states.length := by
    rw [← length_trials c now m r.states e, h, List.length_append, List.length_cons]
    omega
  have hfresh : r.isFresh = false := by
    rw [Bool.eq_false_iff, ne_eq, isFresh_iff]
    intro hnil
    rw [hnil] at hlt
    exact Nat.not_lt_zero _ hlt
  have htry := tryStates_decided h pass (fun ⟨_, herror, _⟩ => by cases herror) 0 []
  rw [Nat.zero_add] at htry
  obtain ⟨e', htry⟩ := outcome_of_result htry
  unfold decrypt
  simp only [hfresh, Bool.false_eq_true, if_false, outcome_bind, htry]
  simp [Except.map, accept_eq hlt]

/-- No attempt succeeds at which the ones before it pass: the fault is the one
to blame. -/
theorem decrypt_refuses {c : Config} {now : UInt64} {r : Record} {m : RatchetMessage} {e : Entropy}
    (h : ¬∃ passed result rest, trials c now m r.states e = passed ++ .ok result :: rest ∧
      ∀ t ∈ passed, t.Passes)
    (peer : Address) :
    ∃ fault, (outcome (r.decrypt c now peer m) e).1 = .error fault ∧
      Blames peer (trials c now m r.states e) fault := by
  cases hfresh : r.isFresh with
  | true =>
    rw [isFresh_iff.mp hfresh]
    refine ⟨_, ?_, .noState⟩
    unfold decrypt
    rw [hfresh]
    rfl
  | false =>
    have hstates : r.states ≠ [] := by
      rw [ne_eq, ← isFresh_iff, hfresh]
      exact Bool.false_ne_true
    have herror : ∀ fault, (outcome (tryStates c now m 0 r.states []) e).1 = .error fault →
        (outcome (r.decrypt c now peer m) e).1 = .error fault := by
      intro fault htry
      obtain ⟨e', htry⟩ := outcome_of_result htry
      unfold decrypt
      simp only [hfresh, Bool.false_eq_true, if_false, outcome_bind, htry]
    rcases passes_or_decided (trials c now m r.states e) with
      hall | ⟨passed, t, rest, hsplit, hpassed, ht⟩
    · obtain ⟨faults, hfaults, hnext⟩ := eq_map_error hall
      refine ⟨lastFault faults, herror _ (tryStates_passed hfaults hnext 0 []), ?_⟩
      rw [hfaults]
      rcases lastFault_cases hnext with
        ⟨hinvalid, hlast⟩ | ⟨invalid, counter, jump, limit, rest, rfl, hinvalid, hlast⟩
      · rw [hlast]
        refine .invalid ?_ ?_
        · intro hnil
          rw [hnil] at hfaults
          exact hstates
            (List.length_eq_zero_iff.mp (by rw [← length_trials c now m r.states e, hfaults]; rfl))
        · intro t ht
          obtain ⟨fault, hfault, rfl⟩ := List.mem_map.mp ht
          rw [hinvalid fault hfault]
      · rw [hlast, List.map_append, List.map_cons]
        refine .tooFar ?_ ?_
        · intro t ht
          obtain ⟨fault, hfault, rfl⟩ := List.mem_map.mp ht
          rw [hinvalid fault hfault]
        · intro t ht
          obtain ⟨fault, hfault, rfl⟩ := List.mem_map.mp ht
          exact ⟨fault, rfl, hnext fault (by simp [hfault])⟩
    · cases t with
      | ok result => exact absurd ⟨passed, result, rest, hsplit, hpassed⟩ h
      | error fault =>
        refine ⟨fault, herror _ (tryStates_decided hsplit hpassed ht 0 []), ?_⟩
        rw [hsplit]
        refine .final hpassed ?_
        rw [Bool.eq_false_iff]
        exact fun hnext => ht ⟨fault, rfl, hnext⟩

/-- So the fault of a record is always the one to blame. -/
theorem blames_of_error {c : Config} {now : UInt64} {r : Record} {m : RatchetMessage} {e : Entropy}
    {peer : Address} {fault : SessionError}
    (h : (outcome (r.decrypt c now peer m) e).1 = .error fault) :
    Blames peer (trials c now m r.states e) fault := by
  by_cases haccept : ∃ passed result rest,
      trials c now m r.states e = passed ++ .ok result :: rest ∧ ∀ t ∈ passed, t.Passes
  · obtain ⟨passed, ⟨plain, after⟩, rest, hsplit, hpass⟩ := haccept
    rw [decrypt_accepts hsplit hpass] at h
    cases h
  · obtain ⟨blamed, hblamed, hblames⟩ := decrypt_refuses haccept peer
    obtain rfl := Except.error.inj (h.symm.trans hblamed)
    exact hblames

/-- Some state is tried of which the step to the ratchet key of the message fails. -/
def Barred (c : Config) (now : UInt64) (r : Record) (m : RatchetMessage) (e : Entropy) : Prop :=
  ∃ failing s later e₁, r.states = failing ++ s :: later ∧ Passed c now m failing e e₁ ∧
    s.receiverChain? m.ratchetKey = none ∧ s.Barred m.ratchetKey e₁

/-- Where all states speak the version of the message, a refusal is a message
fault, or the ratchet key admits no agreement. -/
theorem decrypt_error {c : Config} {now : UInt64} {r : Record} {m : RatchetMessage} {e : Entropy}
    {peer : Address} {fault : SessionError}
    (h : (outcome (r.decrypt c now peer m) e).1 = .error fault) (some : r.states ≠ [])
    (version : ∀ s ∈ r.states, m.version = s.version) :
    (∃ why, fault = .message why) ∨ fault = .session (.invalidKey .lowOrder) ∧
      r.Barred c now m e := by
  have hblames := blames_of_error h
  generalize htried : trials c now m r.states e = tried at hblames
  cases hblames with
  | noState => exact absurd (trials_eq_nil.mp htried) some
  | tooFar => exact .inl ⟨_, rfl⟩
  | invalid => exact .inl ⟨_, rfl⟩
  | final hpass hstops =>
    obtain ⟨failing, s, later, e₁, hstates, hpassed, hs⟩ := exists_of_trials htried hpass
    cases State.decrypt_error hs with
    | version differs => exact absurd (version s (by simp [hstates])) differs
    | message why => exact .inl ⟨why, rfl⟩
    | key _ new barred => exact .inr ⟨rfl, failing, s, later, e₁, hstates, hpassed, new, barred⟩

theorem Barred.decrypt {c : Config} {now : UInt64} {r : Record} {m : RatchetMessage} {e : Entropy}
    (h : r.Barred c now m e) (version : ∀ s ∈ r.states, m.version = s.version) (peer : Address) :
    (outcome (r.decrypt c now peer m) e).1 = .error (.session (.invalidKey .lowOrder)) := by
  obtain ⟨failing, s, later, e₁, hstates, hpassed, new, barred⟩ := h
  obtain ⟨passed, htrials, hpass⟩ := hpassed.trials (s :: later)
  have hs := State.decrypt_barred (version s (by simp [hstates])) new barred c now
  rw [← hstates, trials, hs] at htrials
  have hstops : ¬Trial.Passes (.error (.session (.invalidKey .lowOrder))) := by
    rintro ⟨fault, heq, hnext⟩
    cases heq
    cases hnext
  obtain ⟨e', htry⟩ := outcome_of_result (tryStates_decided htrials hpass hstops 0 [])
  have hfresh : r.isFresh = false := by
    rw [Bool.eq_false_iff, ne_eq, isFresh_iff, hstates]
    simp
  unfold Record.decrypt
  simp only [hfresh, Bool.false_eq_true, if_false, outcome_bind, htry, Except.map]

end Record

end DoubleRatchet
