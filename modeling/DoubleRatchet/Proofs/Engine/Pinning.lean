import DoubleRatchet.Proofs.Engine.Runs

/-!
# Records and pinned identities

Records are only ever committed under a trusted identity, and consist of states
with it: those that were stored before and the one that was set up or used. So
no operation changes a pinned identity, and every stored state is with the
identity that is pinned for its peer.
-/
namespace DoubleRatchet

theorem Record.isFresh_eq_false_iff {r : Record} : r.isFresh = false ↔ ∃ t, t ∈ r.states := by
  obtain ⟨_ | s, _ | ⟨t, previous⟩⟩ := r <;> simp [isFresh, states]

namespace Stores

/-- Every stored state, current or archived, is with the identity that is pinned for its peer. -/
def Pinned (s : Stores) : Prop :=
  ∀ peer, ∀ t ∈ (s.loadSession peer).states, s.identity.known.get? peer = some t.remoteIdentity

/-- Whatever is pinned stays pinned. -/
def KeepsPins (s s' : Stores) : Prop :=
  ∀ peer identity, s.identity.known.get? peer = some identity →
    s'.identity.known.get? peer = some identity

theorem KeepsPins.trans {s s' s'' : Stores} (h : s.KeepsPins s') (h' : s'.KeepsPins s'') :
    s.KeepsPins s'' :=
  fun peer identity hpinned => h' peer identity (h peer identity hpinned)

/-- What becomes of records and pinned identities: nothing, or a record is
committed under a trusted identity. Its states are with this identity, or with
that of a state which it already held. -/
inductive Settles (s : Stores) : Stores → Prop
  | same {s' : Stores} (known : s'.identity.known = s.identity.known)
      (sessions : s'.sessions = s.sessions) :
      Settles s s'
  | commits {peer : Address} {identity : PublicKey} {r : Record} (used : Option UInt32)
      (trusted : s.isTrusted peer identity = true)
      (states : ∀ t ∈ r.states,
        t.remoteIdentity = identity ∨ ∃ u ∈ (s.loadSession peer).states,
        u.remoteIdentity = t.remoteIdentity) :
      Settles s ((s.committed peer identity r).withoutUsed used)

theorem Settles.keepsPins {s s' : Stores} (h : s.Settles s') : s.KeepsPins s' := by
  intro other pinned hpinned
  cases h with
  | same known _ => rwa [known]
  | @commits peer identity r used trusted _ =>
    rw [known_committed]
    by_cases hother : other = peer
    · subst hother
      rw [isTrusted_iff, hpinned] at trusted
      rw [if_pos rfl, trusted.resolve_left (Option.some_ne_none _)]
    · rw [if_neg hother, hpinned]

theorem Settles.pinned {s s' : Stores} (h : s.Settles s') (hs : s.Pinned) : s'.Pinned := by
  intro other t ht
  cases h with
  | same known sessions =>
    rw [loadSession, sessions] at ht
    rw [known]
    exact hs other t ht
  | @commits peer identity r used trusted states =>
    rw [loadSession_withoutUsed, loadSession_committed] at ht
    rw [known_committed]
    by_cases hother : other = peer
    · subst hother
      rw [if_pos rfl] at ht ⊢
      rcases states t ht with heq | ⟨u, hu, heq⟩
      · rw [heq]
      · -- a state that was there before pins its identity, and no other one is trusted
        have hbefore := hs other u hu
        rw [isTrusted_iff, hbefore] at trusted
        rw [← trusted.resolve_left (Option.some_ne_none _), heq]
    · rw [if_neg hother] at ht ⊢
      exact hs other t ht

theorem pinned_create (keyPair : KeyPair) (registrationId : UInt32) :
    (create keyPair registrationId).Pinned :=
  fun _ _ ht => absurd ht List.not_mem_nil

end Stores

variable [Suite]

/-- Every operation settles the stores in this way. -/
theorem settles_perform (c : Config) (d : Device) (op : Operation) :
    d.stores.Settles (op.perform c d).stores := by
  have hacts := acts_perform c d op
  generalize (op.perform c d).stores = s at hacts ⊢
  cases hacts with
  | same => exact .same rfl rfl
  | made deviceId start count now =>
    exact .same (congrArg IdentityStore.known (identity_generate c d deviceId start count now))
      (sessions_generate c d deviceId start count now)
  | started trusted agree =>
    refine .commits none trusted fun t ht => ?_
    rcases Record.mem_states_promote ht with rfl | ht
    · exact .inl (Engine.started_remoteIdentity agree)
    · exact .inr ⟨t, ht, rfl⟩
  | written current written trusted =>
    refine .commits none trusted fun t ht => ?_
    rcases List.mem_cons.mp ht with rfl | ht
    · exact .inl (State.sameSession_encrypt written).remoteIdentity
    · exact .inr ⟨t, List.mem_append_right _ ht, rfl⟩
  | @read now peer m x plain e opened reads trusted =>
    -- a state of the opened record was stored before, or is the responder's for this very message
    have hopened : ∀ t ∈ x.record.states, t.remoteIdentity = Engine.presented x.after m ∨
        ∃ u ∈ (d.stores.loadSession peer).states, u.remoteIdentity = t.remoteIdentity := by
      intro t ht
      rcases Engine.mem_opened opened ht with ht | ⟨p, rfl, hown⟩
      · exact .inr ⟨t, ht, rfl⟩
      · exact .inl (Engine.respond_new hown).2.2.1
    refine .commits x.used trusted fun t ht => ?_
    rw [Engine.Reading.states_stored] at ht
    rcases List.mem_cons.mp ht with rfl | ht
    · obtain ⟨e₁, -, hread⟩ := reads.reads
      rw [hread.sameSession.remoteIdentity]
      exact hopened _ (List.mem_of_getElem? reads.place)
    · exact hopened t (Record.mem_states_of_mem_others ht)

end DoubleRatchet
