import DoubleRatchet.Proofs.Session.Coherence

/-!
# Trial of the states of a record

`Record.decrypt` tries the current state and then the earlier ones. It succeeds
exactly when one state reads the message and all states in front of it fail
with faults that let the next be tried; that state becomes the current one.
-/
namespace DoubleRatchet.Record

/-- The states other than the one at a position, as they stand behind it once
it is current. -/
def others (r : Record) (bound position : Nat) : List State :=
  match r.current, position with
  | some _, 0 => r.previous
  | some s, index + 1 => (s :: r.previous.eraseIdx index).take bound
  | none, index => r.previous.eraseIdx index

theorem others_sublist (r : Record) (bound position : Nat) :
    (r.others bound position).Sublist (r.states.eraseIdx position) := by
  unfold others states
  split <;> simp_all [List.take_sublist]

theorem mem_states_of_mem_others {r : Record} {bound position : Nat} {s : State}
    (h : s ∈ r.others bound position) : s ∈ r.states :=
  List.mem_of_mem_eraseIdx ((r.others_sublist bound position).subset h)

/-- The history is within its bound, and empty without a current state. -/
structure Bounded (r : Record) (bound : Nat) : Prop where
  previous : r.previous.length ≤ bound
  current : r.current = none → r.previous = []

/-- In a record within its bound no state is lost when another one becomes current. -/
theorem Bounded.others_eq {r : Record} {bound position : Nat} (h : r.Bounded bound)
    (hp : position < r.states.length) : r.others bound position = r.states.eraseIdx position := by
  have hlen := h.previous
  unfold others states at *
  split
  · next hc => simp [hc]
  · next s index hc =>
    simp only [hc, Option.toList_some, List.singleton_append, List.length_cons,
      List.eraseIdx_cons_succ] at hp ⊢
    have herase := List.length_eraseIdx_of_lt (show index < r.previous.length by omega)
    exact List.take_of_length_le (by rw [List.length_cons]; omega)
  · next hc => simp [hc]

theorem Bounded.others {r : Record} {bound position : Nat} (h : r.Bounded bound) (s : State)
    (hp : position < r.states.length) : Bounded ⟨some s, r.others bound position⟩ bound := by
  have hlen := h.previous
  refine ⟨?_, by simp⟩
  rw [h.others_eq hp, List.length_eraseIdx_of_lt hp]
  unfold states
  cases hc : r.current with
  | none => simp; omega
  | some s => simp [hlen]

theorem states_promote (r : Record) (own : State) (bound : Nat) :
    (r.promote own bound).states = own :: (r.archiveCurrent bound).previous := rfl

theorem archived_sublist (r : Record) (bound : Nat) :
    (r.archiveCurrent bound).previous.Sublist r.states := by
  unfold archiveCurrent states
  cases hc : r.current with
  | none => simp
  | some current => exact List.take_sublist _ _

theorem mem_states_of_mem_archived {r : Record} {bound : Nat} {s : State}
    (h : s ∈ (r.archiveCurrent bound).previous) : s ∈ r.states :=
  (r.archived_sublist bound).subset h

theorem mem_states_promote {r : Record} {own s : State} {bound : Nat}
    (h : s ∈ (r.promote own bound).states) :
    s = own ∨ s ∈ r.states := by
  rw [states_promote] at h
  rcases List.mem_cons.mp h with rfl | h
  · exact .inl rfl
  · exact .inr (mem_states_of_mem_archived h)

/-- A record stays within its bound when a state is made current. -/
theorem Bounded.promote {r : Record} {bound : Nat} (h : r.Bounded bound) (own : State) :
    (r.promote own bound).Bounded bound := by
  refine ⟨?_, by simp [Record.promote]⟩
  unfold Record.promote archiveCurrent
  cases hc : r.current with
  | none => exact h.previous
  | some current => exact List.length_take_le bound (current :: r.previous)

theorem accept_eq {c : Config} {r : Record} {position : Nat} (h : position < r.states.length)
    (after : State) :
    r.accept c position after = .ok ⟨some after, r.others c.maxArchivedStates position⟩ := by
  unfold accept others states at *
  cases hc : r.current with
  | none =>
    simp only [hc, Option.toList_none, List.nil_append] at h
    simp [promoteArchived, promote, archiveCurrent, hc, h]
  | some s =>
    cases position with
    | zero => rfl
    | succ index =>
      simp only [hc, Option.toList_some, List.singleton_append, List.length_cons] at h
      simp [promoteArchived, promote, archiveCurrent, hc, show index < r.previous.length by omega]

theorem isFresh_iff {r : Record} : r.isFresh = true ↔ r.states = [] := by
  simp [isFresh, states]

variable [Suite]

/-- States that fail on a message one after another, each with a fault that
lets the next be tried. -/
inductive Passed (c : Config) (now : UInt64)
    (m : RatchetMessage) : List State → Entropy → Entropy → Prop
  | nil {e : Entropy} : Passed c now m [] e e
  | cons {s : State} {rest : List State} {fault : SessionError} {e₁ e₂ e₃ : Entropy}
      (fails : outcome (s.decrypt c now m) e₁ = (.error fault, e₂)) (next : mayTryNext fault = true)
      (pass : Passed c now m rest e₂ e₃) : Passed c now m (s :: rest) e₁ e₃

/-- A failed attempt on a state is a result like any other, on which it depends
whether the next state is tried. -/
theorem tryStates_cons (c : Config) (now : UInt64) (m : RatchetMessage) (position : Nat) (s : State)
    (rest : List State) (failed : List SessionError) (e : Entropy) :
    outcome (tryStates c now m position (s :: rest) failed) e =
      match outcome (s.decrypt c now m) e with
      | (.ok (plain, after), e₁) => (.ok (position, plain, after), e₁)
      | (.error fault, e₁) =>
        if mayTryNext fault then
          outcome (tryStates c now m (position + 1) rest (failed ++ [fault])) e₁
        else (.error fault, e₁) := by
  have hlift : outcome (ExceptT.lift (s.decrypt c now m).run : Attempt SessionError _) e =
      (.ok (outcome (s.decrypt c now m) e).1, (outcome (s.decrypt c now m) e).2) :=
    outcome_lift _ e
  rw [tryStates, outcome_bind, hlift]
  rcases outcome (s.decrypt c now m) e with ⟨fault | ⟨plain, after⟩, e₁⟩ <;> simp

theorem tryStates_ok {c : Config} {now : UInt64} {m : RatchetMessage} {position k : Nat}
    {states : List State} {failed : List SessionError} {e e' : Entropy} {plain : Bytes}
    {after : State} :
    outcome (tryStates c now m position states failed) e = (.ok (k, plain, after), e') ↔
      ∃ passed before rest e₁, states = passed ++ before :: rest ∧ k = position + passed.length ∧
        Passed c now m passed e e₁ ∧ before.Reads c now m e₁ plain after e' := by
  induction states generalizing position failed e with
  | nil => simp [tryStates]
  | cons s states ih =>
    rw [tryStates_cons]
    constructor
    · intro h
      rcases hd : outcome (s.decrypt c now m) e with ⟨fault | ⟨text, t⟩, e₁⟩
      · rw [hd] at h
        cases hnext : mayTryNext fault with
        | false => simp [hnext] at h
        | true =>
          simp only [hnext, if_true] at h
          obtain ⟨passed, before, rest, e₂, rfl, rfl, hpass, hreads⟩ := ih.mp h
          exact ⟨s :: passed, before, rest, e₂, rfl, by simp; omega, .cons hd hnext hpass, hreads⟩
      · rw [hd] at h
        simp only [Prod.mk.injEq, Except.ok.injEq] at h
        obtain ⟨⟨rfl, rfl, rfl⟩, rfl⟩ := h
        exact ⟨[], s, states, e, rfl, rfl, .nil, State.decrypt_ok.mp hd⟩
    · rintro ⟨passed, before, rest, e₁, hstates, rfl, hpass, hreads⟩
      cases hpass with
      | nil =>
        obtain ⟨rfl, rfl⟩ := List.cons.inj hstates
        rw [State.decrypt_ok.mpr hreads]
        rfl
      | cons fails next pass =>
        obtain ⟨rfl, rfl⟩ := List.cons.inj hstates
        rw [fails]
        simp only [next, if_true]
        exact ih.mpr ⟨_, before, rest, e₁, rfl, by simp; omega, pass, hreads⟩

/-- A record reads a message with the state at a position, which all states in
front of it let pass. -/
structure Reads (c : Config) (now : UInt64) (r : Record) (m : RatchetMessage) (e : Entropy)
    (plain : Bytes) (position : Nat) (before after : State) (e' : Entropy) : Prop where
  place : r.states[position]? = some before
  reads : ∃ e₁, Passed c now m (r.states.take position) e e₁ ∧
      before.Reads c now m e₁ plain after e'

theorem Reads.lt {c : Config} {now : UInt64} {r : Record} {m : RatchetMessage} {e e' : Entropy}
    {plain : Bytes} {position : Nat} {before after : State}
    (h : r.Reads c now m e plain position before after e') :
    position < r.states.length :=
  (List.getElem?_eq_some_iff.mp h.place).1

/-- In a record without history it is the current state that reads. -/
theorem reads_single {c : Config} {now : UInt64} {s : State} {m : RatchetMessage} {e e' : Entropy}
    {plain : Bytes} {position : Nat} {before after : State} :
    Reads c now ⟨some s, []⟩ m e plain position before after e' ↔
      position = 0 ∧ before = s ∧ s.Reads c now m e plain after e' := by
  constructor
  · intro h
    obtain ⟨e₁, hpass, hreads⟩ := h.reads
    have hlt : position < 1 := h.lt
    obtain rfl : position = 0 := by omega
    obtain rfl : s = before := Option.some_inj.mp h.place
    cases hpass
    exact ⟨rfl, rfl, hreads⟩
  · rintro ⟨rfl, rfl, hreads⟩
    exact ⟨rfl, e, .nil, hreads⟩

theorem tryStates_states_ok {c : Config} {now : UInt64} {m : RatchetMessage} {r : Record}
    {position : Nat} {e e' : Entropy} {plain : Bytes} {after : State} :
    outcome (tryStates c now m 0 r.states []) e = (.ok (position, plain, after), e') ↔
      ∃ before, r.Reads c now m e plain position before after e' := by
  rw [tryStates_ok]
  constructor
  · rintro ⟨passed, before, rest, e₁, hstates, rfl, hpass, hreads⟩
    refine ⟨before, ?_, e₁, ?_, hreads⟩
    · simp [hstates]
    · simpa [hstates] using hpass
  · rintro ⟨before, hplace, e₁, hpass, hreads⟩
    obtain ⟨hlt, rfl⟩ := List.getElem?_eq_some_iff.mp hplace
    refine ⟨_, _, r.states.drop (position + 1), e₁, ?_, ?_, hpass, hreads⟩
    · rw [← List.drop_eq_getElem_cons hlt, List.take_append_drop]
    · rw [List.length_take, Nat.zero_add, Nat.min_eq_left (by omega)]

theorem decrypt_ok {c : Config} {now : UInt64} {peer : Address} {r r' : Record} {m : RatchetMessage}
    {e e' : Entropy} {plain : Bytes} :
    outcome (r.decrypt c now peer m) e = (.ok (plain, r'), e') ↔
      ∃ position before after, r.Reads c now m e plain position before after e' ∧
        r' = ⟨some after, r.others c.maxArchivedStates position⟩ := by
  unfold decrypt
  constructor
  · intro h
    cases hfresh : r.isFresh with
    | true => simp [hfresh] at h
    | false =>
      simp only [hfresh, Bool.false_eq_true, if_false] at h
      obtain ⟨⟨position, text, after⟩, e₁, htry, h⟩ := outcome_bind_ok.mp h
      obtain ⟨before, hreads⟩ := tryStates_states_ok.mp htry
      simp only [accept_eq hreads.lt, outcome_pure, Prod.mk.injEq, Except.ok.injEq] at h
      obtain ⟨⟨rfl, rfl⟩, rfl⟩ := h
      exact ⟨position, before, after, hreads, rfl⟩
  · rintro ⟨position, before, after, hreads, rfl⟩
    have hfresh : r.isFresh = false := by
      rw [Bool.eq_false_iff, ne_eq, isFresh_iff]
      intro hnil
      have hlt := hreads.lt
      rw [hnil] at hlt
      exact Nat.not_lt_zero _ hlt
    simp only [hfresh, Bool.false_eq_true, if_false]
    exact outcome_bind_ok.mpr
      ⟨_, _, tryStates_states_ok.mpr ⟨before, hreads⟩, by simp [accept_eq hreads.lt]⟩

theorem Reads.decrypt {c : Config} {now : UInt64} {r : Record} {m : RatchetMessage} {e e' : Entropy}
    {plain : Bytes} {position : Nat} {before after : State}
    (h : r.Reads c now m e plain position before after e') (peer : Address) :
    outcome (r.decrypt c now peer m) e =
      (.ok (plain, ⟨some after, r.others c.maxArchivedStates position⟩), e') :=
  decrypt_ok.mpr ⟨position, before, after, h, rfl⟩

/-- A message that is spent for the current state is refused as a duplicate,
and no other state is tried. -/
theorem decrypt_spent {r : Record} {s : State} {m : RatchetMessage} (hs : r.current = some s)
    (spent : s.Spent m.ratchetKey m.counter) (version : m.version = s.version) (c : Config)
    (now : UInt64) (peer : Address) (e : Entropy) :
    ∃ index, outcome (r.decrypt c now peer m) e =
      (.error (.message (.duplicate index m.counter)), e) := by
  obtain ⟨index, hrefused⟩ := State.decrypt_spent spent version c now e
  refine ⟨index, ?_⟩
  have htry : outcome (tryStates c now m 0 r.states []) e =
      (.error (.message (.duplicate index m.counter)), e) := by
    rw [states, hs, Option.toList_some, List.singleton_append, tryStates_cons, hrefused]
    rfl
  unfold decrypt
  simp [outcome_bind, isFresh, hs, htry]

end DoubleRatchet.Record
