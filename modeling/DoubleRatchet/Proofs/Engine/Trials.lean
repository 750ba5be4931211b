import DoubleRatchet.Proofs.Engine.Runs
import DoubleRatchet.Proofs.Session.Refusals

/-!
# What a trial of the states comes to

A message is tried on the current state and then on the archived ones. The
first attempt that does not let the next state be tried decides. If it succeeds,
the record is as before but for the state that read the message, which is the
current one now. Else the message is refused, and the stores stay as they are.
Main statement: `Record.trial_decryption`.
-/
namespace DoubleRatchet

variable [Suite]

/-- A device refuses an ordinary message that its record refuses. -/
theorem Engine.decryptRatchet_refused {c : Config} {now : UInt64} {peer : Address}
    {m : RatchetMessage} {d : Device} {fault : SessionError}
    (h : (outcome ((d.stores.loadSession peer).decrypt c now peer m) d.entropy).1 = .error fault) :
    ∃ e, outcome (decryptRatchet c now peer m) d = (.error fault, ⟨d.stores, e⟩) := by
  unfold decryptRatchet
  simp only [outcome_bind, Action.outcome_stores, Action.outcome_attempt, h]
  exact ⟨_, rfl⟩

namespace Record

/-- What a record makes of a message, from what comes of its states in turn. -/
theorem trial_decryption (c : Config) (now : UInt64) (peer : Address) (r : Record)
    (m : RatchetMessage) (e : Entropy) :
    (∀ passed plain after rest, trials c now m r.states e = passed ++ .ok (plain, after) :: rest →
      (∀ t ∈ passed, t.Passes) → (outcome (r.decrypt c now peer m) e).1 =
        .ok (plain, ⟨some after, r.others c.maxArchivedStates passed.length⟩)) ∧
    ((¬∃ passed result rest, trials c now m r.states e = passed ++ .ok result :: rest ∧
      ∀ t ∈ passed, t.Passes) →
      ∃ fault, (outcome (r.decrypt c now peer m) e).1 = .error fault ∧
        Blames peer (trials c now m r.states e) fault ∧
        (∀ other, fault = .session (.noSession other) → r.states = []) ∧
        ∀ d : Device, d.stores.loadSession peer = r → d.entropy = e →
          ∃ e', outcome (Engine.decryptRatchet c now peer m) d =
            (.error fault, ⟨d.stores, e'⟩)) := by
  refine ⟨fun passed plain after rest hsplit hpass => decrypt_accepts hsplit hpass peer,
    fun hnone => ?_⟩
  obtain ⟨fault, hfault, hblames⟩ := decrypt_refuses hnone peer
  refine ⟨fault, hfault, hblames, ?_, ?_⟩
  · rintro other rfl
    generalize htried : trials c now m r.states e = tried at hblames
    cases hblames with
    | noState => rwa [← List.length_eq_zero_iff, length_trials, List.length_eq_zero_iff] at htried
    | final =>
      -- no state refuses a message for want of a session
      have hmem : .error (.session (.noSession other)) ∈ trials c now m r.states e := by
        rw [htried]
        exact List.mem_append_right _ List.mem_cons_self
      obtain ⟨s, -, e₁, hrefuses⟩ := refuses_of_mem_trials hmem
      cases hrefuses
  · rintro d rfl rfl
    exact Engine.decryptRatchet_refused hfault

end Record

namespace Small

/-- The publisher starts a session of its own, while a second message of Alice is on its way. -/
def returning : Device :=
  @Device.run suite {} acquainted [.process alice
    (@Bundle.mk 1 1 none 1 (device 7).stores.identity.keyPair.publicKey (List.replicate 64 0)
      (device 1).stores.identity.keyPair.publicKey)]

/-- The second message of Alice, under the session that she started. -/
def late : Message :=
  match (write bob [111, 107] (write bob [104, 105] (starter {})).2).1 with
  | .ok m => m
  | .error _ => .ratchet ⟨currentVersion, default, 0, 0, [], []⟩

end Small

omit [Suite] in
/-- The message is late: the publisher's own state does not read it, and the archived
one goes in front of that. -/
theorem Record.trial_decryption_late :
    ∃ own archived after, Small.returning.stores.loadSession Small.alice = ⟨some own, [archived]⟩ ∧
      @trials Small.suite {} 0 Small.late.inner [own, archived] Small.returning.entropy =
        [.error (.message .invalid), .ok ([111, 107], after)] ∧
      (outcome (@Record.decrypt Small.suite {} 0 Small.alice
        ⟨some own, [archived]⟩ Small.late.inner)
        Small.returning.entropy).1 = .ok ([111, 107], ⟨some after, [own]⟩) := by
  let := Small.suite
  have hstates : (Small.returning.stores.loadSession Small.alice).current.isSome = true ∧
      (Small.returning.stores.loadSession Small.alice).previous.length = 1 := by decide +kernel
  have htexts :
      (trials {} 0 Small.late.inner (Small.returning.stores.loadSession Small.alice).states
      Small.returning.entropy).map (fun t => t.map Prod.fst) = [.error (.message .invalid),
        .ok [111, 107]] := by
    decide +kernel
  generalize Small.returning.stores.loadSession Small.alice = r at hstates htexts
  obtain ⟨current, previous⟩ := r
  obtain ⟨own, rfl⟩ := Option.isSome_iff_exists.mp hstates.1
  obtain ⟨archived, rfl⟩ := List.length_eq_one_iff.mp hstates.2
  obtain ⟨first, tried, htrials, hfirst, hrest⟩ := List.map_eq_cons_iff.mp htexts
  obtain ⟨second, tried, rfl, hsecond, hnil⟩ := List.map_eq_cons_iff.mp hrest
  obtain rfl := List.map_eq_nil_iff.mp hnil
  cases first with
  | ok => cases hfirst
  | error fault =>
    obtain rfl := Except.error.inj hfirst
    cases second with
    | error => cases hsecond
    | ok result =>
      obtain ⟨plain, after⟩ := result
      obtain rfl : plain = [111, 107] := Except.ok.inj hsecond
      refine ⟨own, archived, after, rfl, htrials, ?_⟩
      apply (trial_decryption {} 0 Small.alice ⟨some own, [archived]⟩ Small.late.inner
        Small.returning.entropy).1 [.error (.message .invalid)] _ _ [] htrials
      simp [Trial.Passes, mayTryNext]

end DoubleRatchet
