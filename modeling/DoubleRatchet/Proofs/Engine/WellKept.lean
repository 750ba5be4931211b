import DoubleRatchet.Proofs.Engine.Readers
import DoubleRatchet.Proofs.Session.WellKept

/-!
# Stored states are well kept

Whatever a device is asked to do, and whatever messages come in, the states of
its records are coherent and within their bounds, and all that they hold of a
peer's chain has come from one start.
-/
namespace DoubleRatchet

section Run

variable [Suite]

theorem State.WellKept.lasting (c : Config) : State.Lasting c (State.WellKept c) where
  initiator h := (Engine.started_new h).wellKept c
  responder h := (Engine.respond_new h).1.wellKept c
  writes h hm := h.encrypt hm
  reads h hr := h.reads hr

/-- Every state that a device ever stores, current or earlier and for any peer, is well kept. -/
theorem wellKept_run (c : Config) (keyPair : KeyPair) (registrationId : UInt32) (entropy : Entropy)
    (ops : List Operation) (peer : Address) :
    ∀ s ∈ ((Device.new keyPair registrationId entropy).run c ops).states peer, s.WellKept c :=
  (State.WellKept.lasting c).run keyPair registrationId entropy ops peer

end Run

namespace Small

/-- The initiator's third message. -/
def third : Message :=
  match (write bob [109, 111] (write bob [109] (write bob [104, 105] (starter {})).2).2).1 with
  | .ok m => m
  | .error _ => .preKey second

/-- Two messages in, of which the later one is ahead of its chain. -/
def gap : List Operation :=
  [.generate 1 1 2 0, .decrypt 0 alice (greeting {}), .decrypt 0 alice third]

end Small

/-- A device that misses a message holds one key for it, as the chain's origin has it. -/
theorem wellKept_run_gap :
    ∃ s ∈ (@Device.run Small.suite {} (Small.device 101) Small.gap).states Small.alice,
      s.skipped.size = 1 ∧ @State.WellKept Small.suite {} s := by
  let := Small.suite
  have hsizes : ((Device.run {} (Small.device 101) Small.gap).states Small.alice).map
      (·.skipped.size) = [1] := by
    decide +kernel
  obtain ⟨s, hs, hsize⟩ := List.mem_map.mp (hsizes ▸ List.mem_singleton_self 1)
  exact ⟨s, hs, hsize, wellKept_run {} _ _ _ Small.gap Small.alice s hs⟩

end DoubleRatchet
