import DoubleRatchet.Proofs.Engine.Readers
import DoubleRatchet.Proofs.Sealed.Operations

/-!
# Failures change nothing

Each operation does its work on copies and stores the result after its last
check. Whatever fails, and however far it came, the stores are as before:
records, pinned identities and pre-keys alike.
-/
namespace DoubleRatchet

/-- An operation with a peer that fails leaves all stores as they were. -/
theorem stores_eq_of_error [Suite] (c : Config) (now : UInt64) (d d' : Device) :
    (∀ peer plain fault, outcome (Engine.encrypt peer plain) d = (.error fault, d') →
      d'.stores = d.stores) ∧
    (∀ peer m fault, outcome (Engine.decrypt c now peer m) d = (.error fault, d') →
      d'.stores = d.stores) ∧
    (∀ peer b fault, outcome (Engine.processBundle c peer b) d = (.error fault, d') →
      d'.stores = d.stores) ∧
    ∀ root input time localAddress fault,
      outcome (SealedEngine.decrypt c now root input time localAddress) d = (.error fault, d') →
        d'.stores = d.stores := by
  refine ⟨fun peer plain fault h => ?_, fun peer m fault h => ?_, fun peer b fault h => ?_,
    fun root input time localAddress fault h => ?_⟩
  · rw [Engine.encrypt_error h]
  · exact Engine.decrypt_error h
  · exact Engine.processBundle_error h
  · exact SealedEngine.decrypt_error h

/-- Where another identity is pinned than that of the session, a message that
has been written, one that has been read and one that has been unsealed and
read are all given up, and so is a bundle. -/
theorem stores_eq_of_error_replaced :
    (∃ d', outcome (@Engine.encrypt Small.suite Small.alice [1]) Small.replaced =
        (.error (.session (.untrustedIdentity Small.alice)), d') ∧
          d'.stores = Small.replaced.stores) ∧
    (∃ d', outcome (@Engine.decrypt Small.suite {} 0 Small.alice (.ratchet Small.second.message))
      Small.replaced =
        (.error (.session (.untrustedIdentity Small.alice)), d') ∧
          d'.stores = Small.replaced.stores) ∧
    (∃ b d', outcome (@Engine.processBundle Small.suite {} Small.alice b) Small.replaced =
        (.error (.session (.untrustedIdentity Small.alice)), d') ∧
          d'.stores = Small.replaced.stores) ∧
    ∃ d', outcome (@SealedEngine.decrypt Small.suite {} 0 default
        (Small.resealed Small.alice (Small.device 1) (.ratchet Small.second.message)) 0 Small.bob)
        Small.replaced =
      (.error (.knownSender Small.alice .whisper
        (.session (.session (.untrustedIdentity Small.alice)))), d') ∧
        d'.stores = Small.replaced.stores := by
  let := Small.suite
  have hencrypt : (outcome (Engine.encrypt Small.alice [1]) Small.replaced).1 =
      .error (.session (.untrustedIdentity Small.alice)) := by decide +kernel
  have hdecrypt :
      (outcome (Engine.decrypt {} 0 Small.alice (.ratchet Small.second.message)) Small.replaced).1 =
      .error (.session (.untrustedIdentity Small.alice)) := by decide +kernel
  have hbundle :
      (outcome (Engine.processBundle {} Small.alice ⟨1, 1, none, 1, default, [], default⟩)
      Small.replaced).1 = .error (.session (.untrustedIdentity Small.alice)) := by decide +kernel
  have hsealed : (outcome (SealedEngine.decrypt {} 0 default
      (Small.resealed Small.alice (Small.device 1) (.ratchet Small.second.message)) 0 Small.bob)
      Small.replaced).1 =
      .error (.knownSender Small.alice .whisper
        (.session (.session (.untrustedIdentity Small.alice)))) := by
    decide +kernel
  obtain ⟨d₁, h₁⟩ := outcome_of_result hencrypt
  obtain ⟨d₂, h₂⟩ := outcome_of_result hdecrypt
  obtain ⟨d₃, h₃⟩ := outcome_of_result hbundle
  obtain ⟨d₄, h₄⟩ := outcome_of_result hsealed
  refine ⟨⟨d₁, h₁, ?_⟩, ⟨d₂, h₂, ?_⟩, ⟨_, d₃, h₃, ?_⟩, ⟨d₄, h₄, ?_⟩⟩
  · exact (stores_eq_of_error {} 0 _ _).1 _ _ _ h₁
  · exact (stores_eq_of_error {} 0 _ _).2.1 _ _ _ h₂
  · exact (stores_eq_of_error {} 0 _ _).2.2.1 _ _ _ h₃
  · exact (stores_eq_of_error {} 0 _ _).2.2.2 _ _ _ _ _ h₄

end DoubleRatchet
