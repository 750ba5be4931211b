import DoubleRatchet.Proofs.Engine.Readers
import DoubleRatchet.Proofs.Session.Retention

/-!
# No cached key is lost early or used late

Every state that a device stores has come from a new one by a run of messages
written, read and refused. In such a run every number that is passed over has
its key cached, and the key serves its message until it is taken, crowded out,
dropped with its chain, or stale when a message is read. Main statement:
`skipped_keys_retained`.
-/
namespace DoubleRatchet

section Run

variable [Suite]

/-- A state has come from a new one by a run. -/
def State.HasRun (c : Config) (s : State) : Prop :=
  ∃ (own : State) (history : List Receipt), own.New ∧ own.Runs c history s

theorem State.HasRun.lasting (c : Config) : State.Lasting c (State.HasRun c) where
  initiator h := ⟨_, [], Engine.started_new h, .start⟩
  responder h := ⟨_, [], (Engine.respond_new h).1, .start⟩
  writes := by
    rintro s t plain m ⟨own, history, hown, run⟩ written
    exact ⟨own, history, hown, run.writes written⟩
  reads := by
    rintro now s t m e e' plain ⟨own, history, hown, run⟩ hreads
    exact ⟨own, _, hown, run.reads (State.decrypt_ok.mpr hreads)⟩

/-- Every state that a device ever stores has come from a new one by a run. When a
message is read in a run, each number between its chain and the message has a key
in store: at once, if the bounds fit together, and at any later point of the run
unless it is lost by then. Whatever key is cached was stored in this way, and serves
its message as long as it is not stale, but not any later. -/
theorem skipped_keys_retained (c : Config) :
    (∀ (keyPair : KeyPair) (registrationId : UInt32) (entropy : Entropy)
      (ops : List Operation) (peer : Address),
      ∀ s ∈ ((Device.new keyPair registrationId entropy).run c ops).states peer, s.HasRun c) ∧
    ∀ own : State, own.New →
      (∀ before s now m e plain after e', own.Runs c before s →
        outcome (s.decrypt c now m) e = (.ok (plain, after), e') →
        ∀ n, s.indexOf m.ratchetKey ≤ n → n < m.counter →
          ∃ entry, s.Skips c now m e entry ∧ entry.name = (m.ratchetKey, n) ∧ entry.storedAt = now ∧
            (c.validate = .ok () → after.Available c entry) ∧
            ∀ history t, after.Runs c history t → t.Available c entry ∨
              entry.Lost c (m.counter.toNat - n.toNat - 1)
                (chainsSince m.ratchetKey (before ++ [s.receipt now m])) history) ∧
      ∀ history t, own.Runs c history t → ∀ entry ∈ t.skipped.entries, t.Available c entry ∧
        ∃ before s now m e plain after e' rest, own.Runs c before s ∧
          outcome (s.decrypt c now m) e = (.ok (plain, after), e') ∧ s.Skips c now m e entry ∧
          after.Runs c rest t ∧ history = before ++ s.receipt now m :: rest := by
  refine ⟨(State.HasRun.lasting c).run, fun own hown => ⟨?_, ?_⟩⟩
  · intro before s now m e plain after e' run read n hfrom hbelow
    have hs := run.coherent hown.coherent
    have hread := State.decrypt_ok.mp read
    have hafter := (hs.reads hread).1
    obtain ⟨entry, hskip, hname, hstored⟩ := hs.exists_skips hread hfrom hbelow
    obtain rfl : entry.keys.counter = n := (Prod.mk.inj hname).2
    refine ⟨entry, hskip, hname, hstored, fun hvalid => ?_, fun history t later => ?_⟩
    · exact hafter.available (hs.mem_of_skips hread hskip (Config.validate_ok.mp hvalid).2)
    · exact (run.mem_or_lost hown hread hskip later).imp_left (later.coherent hafter).available
  · intro history t run entry hentry
    refine ⟨(run.coherent hown.coherent).available hentry, ?_⟩
    obtain ⟨before, s, now, m, e, plain, after, e', rest, hbefore, hread, hskip, hrest, rfl⟩ :=
      run.exists_skips hown hentry
    exact ⟨before, s, now, m, e, plain, after, e', rest, hbefore,
      State.decrypt_ok.mpr hread, hskip, hrest, rfl⟩

end Run

namespace Small

/-- A new state that has a chain to receive on. -/
def listener : State where
  version := currentVersion
  localIdentity := (pair 1).publicKey
  remoteIdentity := (pair 2).publicKey
  rootKey := ⟨.fill 32 3⟩
  sender := ⟨pair 4, ⟨.fill 32 5, 0⟩⟩
  receivers := [⟨(pair 6).publicKey, ⟨.fill 32 7, 0⟩⟩]
  baseKey := (pair 8).publicKey

theorem listener_new : listener.New := ⟨rfl, rfl, .inr ⟨_, rfl, rfl⟩⟩

/-- The message at a number of its chain. -/
def spoken (n : Nat) : RatchetMessage :=
  @State.written suite { listener with
    localIdentity := listener.remoteIdentity
    remoteIdentity := listener.localIdentity
    sender := ⟨pair 6, @ChainKey.advance suite n ⟨.fill 32 7, 0⟩⟩ } [UInt8.ofNat n]

/-- Keys are kept for a minute, and two of them at the most. -/
def brief : Config := { maxSkippedKeys := 2, maxForwardJump := 2, skippedKeyMaxAge := some 60 }

/-- The state once it has read a message, if it does. -/
def listen (now : UInt64) (n : Nat) (s : State) : State :=
  match (outcome (@State.decrypt suite brief now s (spoken n)) (entropy 0)).1 with
  | .ok (_, t) => t
  | .error _ => s

theorem listen_third :
    ∃ e, outcome (@State.decrypt suite brief 1000 listener (spoken 2)) (entropy 0) =
    (.ok ([2], listen 1000 2 listener), e) :=
  outcome_of_result (by decide +kernel)

/-- After the third message and then the first. -/
def heard : State := listen 1030 0 (listen 1000 2 listener)

end Small

/-- The third message is read before the others: the key of the second one is kept
when the first one takes its own, half a minute later. -/
theorem skipped_keys_retained_heard : Small.listener.New ∧ Small.brief.validate = .ok () ∧
    ∃ entry, entry.name = ((Small.pair 6).publicKey, 1) ∧ entry.storedAt = 1000 ∧
      @State.Available Small.suite Small.brief (Small.listen 1000 2 Small.listener) entry ∧
      @State.Available Small.suite Small.brief Small.heard entry := by
  let := Small.suite
  obtain ⟨e₁, hthird⟩ := Small.listen_third
  obtain ⟨e₂, hfirst⟩ :
      ∃ e₂, outcome ((Small.listen 1000 2 Small.listener).decrypt Small.brief 1030 (Small.spoken 0))
      (Small.entropy 0) = (.ok ([0], Small.heard), e₂) :=
    outcome_of_result (by decide +kernel)
  have hvalid : Small.brief.validate = .ok () := by decide
  obtain ⟨hkept, -⟩ := (skipped_keys_retained Small.brief).2 Small.listener Small.listener_new
  obtain ⟨entry, -, hname, hstored, hnow, hlater⟩ :=
    hkept [] _ 1000 (Small.spoken 2) _ _ _ _ .start hthird 1 (by decide) (by decide +kernel)
  refine ⟨Small.listener_new, hvalid, entry, hname, hstored, hnow hvalid, ?_⟩
  have hadded : Small.listener.receipt 1000 (Small.spoken 2) =
      ⟨1000, (Small.pair 6).publicKey, 2, false, 2, false⟩ := by
    decide +kernel
  have htook : (Small.listen 1000 2 Small.listener).receipt 1030 (Small.spoken 0) =
      ⟨1030, (Small.pair 6).publicKey, 0, false, 0, true⟩ := by decide +kernel
  have hread := hlater _ _ (.reads .start hfirst)
  rw [hadded, htook] at hread
  refine hread.resolve_right fun hlost => ?_
  cases hlost with
  | taken mem _ name =>
    rw [List.mem_singleton.mp mem, hname] at name
    exact absurd (Prod.mk.inj name).2 (by decide)
  | evicted full => exact absurd full (by decide)
  | dropped many => exact absurd many (by decide)
  | expired mem stale =>
    obtain ⟨age, hage, hlate⟩ := stale
    rw [List.mem_singleton.mp mem, hstored, ← Option.some_inj.mp hage] at hlate
    exact absurd hlate (by decide)

end DoubleRatchet
