import DoubleRatchet.Proofs.Engine.WellKept
import DoubleRatchet.Proofs.Session.Retention

/-!
# Stale keys in stored records

Stale keys go from the state that reads a message, and from no other one. The
states that are tried before it are tried as copies, and those behind it are not
looked at. Main statement: `Engine.stale_stored_iff`.
-/
namespace DoubleRatchet

/-- A state that has a key cached which is stale. -/
def State.HoldsStale (c : Config) (now : UInt64) (s : State) : Prop :=
  ∃ entry ∈ s.skipped.entries, entry.Stale c now

instance (c : Config) (now : UInt64) : DecidablePred (State.HoldsStale c now) := fun s =>
  inferInstanceAs (Decidable (∃ entry ∈ s.skipped.entries, entry.Stale c now))

variable [Suite]

/-- When a device reads a message, the state that reads it comes first in the record
and has no stale key. The other states are stored as they were: a stale key is still
stored exactly if one of them had it, be it current or archived. -/
theorem Engine.stale_stored_iff (c : Config) (keyPair : KeyPair) (registrationId : UInt32)
    (entropy : Entropy) (ops : List Operation) (now : UInt64) (peer : Address) (m : Message)
    (plain : Bytes) (d' : Device)
    (h : outcome (Engine.decrypt c now peer m)
      ((Device.new keyPair registrationId entropy).run c ops) = (.ok plain, d')) :
    ∃ x, reading? c now peer m ((Device.new keyPair registrationId entropy).run c ops) = some x ∧
      d'.states peer = x.after :: x.record.states.eraseIdx x.position ∧
      ¬x.after.HoldsStale c now ∧
      ((∃ s ∈ d'.states peer, s.HoldsStale c now) ↔
        ∃ i s, i ≠ x.position ∧ x.record.states[i]? = some s ∧ s.HoldsStale c now) := by
  have hkept := wellKept_run c keyPair registrationId entropy ops peer
  have hbounded := bounded_run c keyPair registrationId entropy ops
  generalize (Device.new keyPair registrationId entropy).run c ops = d at h hkept hbounded ⊢
  obtain ⟨x, hopen, hreads, -, hstores⟩ := decrypt_ok.mp h
  obtain ⟨e₁, -, hread⟩ := hreads.reads
  have hbefore : x.before.Coherent := by
    rcases mem_opened hopen (List.mem_of_getElem? hreads.place) with hs | ⟨p, -, hown⟩
    · exact (hkept x.before hs).toCoherent
    · exact (respond_new hown).1.coherent
  have hclean : ¬x.after.HoldsStale c now := by
    rintro ⟨entry, hentry, hstale⟩
    exact hbefore.not_stale hread hentry hstale
  have hstates : d'.states peer = x.after :: x.record.states.eraseIdx x.position := by
    rw [Device.states, hstores, Stores.loadSession_withoutUsed, Stores.loadSession_committed_self,
      Reading.states_stored, (bounded_opened hbounded hopen).others_eq hreads.lt]
  refine ⟨x, reading?_eq_some.mpr ⟨hopen, plain, d'.entropy, hreads⟩, hstates, hclean, ?_⟩
  simp only [hstates, List.exists_mem_cons_iff, hclean, false_or, List.mem_eraseIdx_iff_getElem?]
  constructor
  · rintro ⟨s, ⟨i, hne, hs⟩, hstale⟩
    exact ⟨i, s, hne, hs, hstale⟩
  · rintro ⟨i, s, hne, hs, hstale⟩
    exact ⟨s, ⟨i, hne, hs⟩, hstale⟩

namespace Small

/-- Keys are kept for a minute. -/
def aging : Config := { skippedKeyMaxAge := some 60 }

/-- The publisher has missed one of three messages. -/
def gapped : List Operation :=
  [.generate 1 1 2 0, .decrypt 1000 alice (greeting {}), .decrypt 1000 alice third]

/-- The initiator starts over, with the pre-key that is left. -/
def renewal : Message :=
  match PreKeys.currentBundle (@Device.run suite aging (device 101) gapped).stores 1 with
  | .ok published =>
    match (write bob [104, 105]
      (outcome (@Engine.establish suite {} bob published) (starter {})).2).1 with
    | .ok m => m
    | .error _ => third
  | .error _ => third

end Small

omit [Suite] in
/-- An hour after a message was missed the initiator starts over: the new session
reads the message, and the key of the missed one stays in the archived state. -/
theorem Engine.stale_stored_iff_renewed :
    ∃ d', (outcome (@Engine.decrypt Small.suite Small.aging 4600 Small.alice
      Small.renewal) (@Device.run Small.suite Small.aging (Small.device 101) Small.gapped)) =
      (.ok [104, 105], d') ∧
    ∃ s ∈ d'.states Small.alice, s.HoldsStale Small.aging 4600 := by
  let := Small.suite
  obtain ⟨d', hread⟩ : ∃ d', outcome (Engine.decrypt Small.aging 4600 Small.alice Small.renewal)
      (Device.run Small.aging (Small.device 101) Small.gapped) = (.ok [104, 105], d') :=
    outcome_of_result (by decide +kernel)
  have hother : (reading? Small.aging 4600 Small.alice Small.renewal
      (Device.run Small.aging (Small.device 101) Small.gapped)).map (fun x =>
        (x.position, x.record.states[1]?.map fun s => decide (s.HoldsStale Small.aging 4600))) =
      some (0, some true) := by decide +kernel
  obtain ⟨x, hreading, -, -, hstale⟩ :=
    stale_stored_iff Small.aging _ _ _ Small.gapped 4600 Small.alice _ _ d' hread
  change reading? Small.aging 4600 Small.alice Small.renewal
    (Device.run Small.aging (Small.device 101) Small.gapped) =
    some x at hreading
  rw [hreading, Option.map_some] at hother
  obtain ⟨hposition, hsecond⟩ := Prod.mk.inj (Option.some_inj.mp hother)
  obtain ⟨s, hs, holds⟩ := Option.map_eq_some_iff.mp hsecond
  exact ⟨d', hread, hstale.mpr ⟨1, s, by omega, hs, of_decide_eq_true holds⟩⟩

end DoubleRatchet
