import DoubleRatchet.Stores

/-!
# Outcomes of computations

A computation of a state or of a device takes what it starts from to a result
and to what it leaves. The laws below give the outcome of each building block,
and take a sequence apart into the outcomes of its parts.
-/
namespace DoubleRatchet

variable {σ ε δ α β : Type}

/-- The result of a computation and what it leaves. -/
def outcome (x : ExceptT ε (StateM σ) α) (s : σ) : Except ε α × σ := x s

theorem outcome_of_result {x : ExceptT ε (StateM σ) α} {s : σ} {r : Except ε α}
    (h : (outcome x s).1 = r) :
    ∃ t, outcome x s = (r, t) :=
  ⟨(outcome x s).2, Prod.ext h rfl⟩

theorem outcome_of_isOk {x : ExceptT ε (StateM σ) α} {s : σ} (h : (outcome x s).1.isOk = true) :
    ∃ a t, outcome x s = (.ok a, t) := by
  rcases hrun : outcome x s with ⟨fault | a, t⟩
  · rw [hrun] at h
    cases h
  · exact ⟨a, t, rfl⟩

@[simp] theorem outcome_pure (a : α) (s : σ) :
    outcome (pure a : ExceptT ε (StateM σ) α) s = (.ok a, s) := rfl

@[simp] theorem outcome_throw (e : ε) (s : σ) :
    outcome (throw e : ExceptT ε (StateM σ) α) s = (.error e, s) := rfl

@[simp] theorem outcome_mk (r : Except ε α) (s : σ) :
    outcome (ExceptT.mk (pure r) : ExceptT ε (StateM σ) α) s = (r, s) := rfl

@[simp] theorem outcome_lift (x : StateM σ α) (s : σ) :
    outcome (ExceptT.lift x : ExceptT ε (StateM σ) α) s = (.ok (x s).1, (x s).2) := rfl

@[simp] theorem outcome_liftM (x : StateM σ α) (s : σ) :
    outcome (liftM x : ExceptT ε (StateM σ) α) s = (.ok (x s).1, (x s).2) := rfl

@[simp] theorem outcome_ite (p : Prop) [Decidable p] (x y : ExceptT ε (StateM σ) α) (s : σ) :
    outcome (if p then x else y) s = if p then outcome x s else outcome y s := by
  split <;> rfl

/-- A sequence goes on from what its first part leaves, unless that part fails. -/
theorem outcome_bind (x : ExceptT ε (StateM σ) α) (f : α → ExceptT ε (StateM σ) β) (s : σ) :
    outcome (x >>= f) s = match outcome x s with
      | (.ok a, t) => outcome (f a) t
      | (.error e, t) => (.error e, t) := by
  change (match x s with | (a, t) => ExceptT.bindCont f a t) = _
  simp only [outcome]
  rcases x s with ⟨_ | a, t⟩ <;> rfl

theorem outcome_bind_of_ok {x : ExceptT ε (StateM σ) α} {s t : σ} {a : α}
    (h : outcome x s = (.ok a, t)) (f : α → ExceptT ε (StateM σ) β) :
    outcome (x >>= f) s = outcome (f a) t := by
  rw [outcome_bind, h]

@[simp] theorem outcome_map (f : α → β) (x : ExceptT ε (StateM σ) α) (s : σ) :
    outcome (f <$> x) s = ((outcome x s).1.map f, (outcome x s).2) := by
  rw [← bind_pure_comp, outcome_bind]
  rcases outcome x s with ⟨_ | a, t⟩ <;> rfl

theorem outcome_bind_ok {x : ExceptT ε (StateM σ) α} {f : α → ExceptT ε (StateM σ) β} {s u : σ}
    {b : β} : outcome (x >>= f) s = (.ok b, u) ↔
      ∃ a t, outcome x s = (.ok a, t) ∧ outcome (f a) t = (.ok b, u) := by
  rw [outcome_bind]
  rcases outcome x s with ⟨_ | a, t⟩ <;> simp [and_assoc]

theorem outcome_map_ok {f : α → β} {x : ExceptT ε (StateM σ) α} {s t : σ} {b : β} :
    outcome (f <$> x) s = (.ok b, t) ↔ ∃ a, outcome x s = (.ok a, t) ∧ f a = b := by
  rw [outcome_map]
  rcases outcome x s with ⟨_ | a, u⟩
  · simp [Except.map]
  · simp [Except.map, and_comm, and_assoc]

theorem outcome_map_error {f : α → β} {x : ExceptT ε (StateM σ) α} {s t : σ} {e : ε} :
    outcome (f <$> x) s = (.error e, t) ↔ outcome x s = (.error e, t) := by
  rw [outcome_map]
  rcases outcome x s with ⟨_ | a, u⟩ <;> simp [Except.map]

/-- Whatever comes of a computation, it leaves a part of what it starts from as it is. -/
def Keeps (view : σ → α) (x : ExceptT ε (StateM σ) β) : Prop := ∀ s, view (outcome x s).2 = view s

theorem Keeps.bind {γ : Type} {view : σ → γ} {x : ExceptT ε (StateM σ) α}
    {f : α → ExceptT ε (StateM σ) β} (hx : Keeps view x) (hf : ∀ a, Keeps view (f a)) :
    Keeps view (x >>= f) := by
  intro s
  have hs := hx s
  rw [outcome_bind]
  rcases h : outcome x s with ⟨_ | a, t⟩ <;> rw [h] at hs
  · exact hs
  · exact (hf a t).trans hs

/-- What keeps the part does not matter to it at the end of a computation. -/
theorem Keeps.after {γ : Type} {view : σ → γ} {f : α → ExceptT ε (StateM σ) β}
    (hf : ∀ a, Keeps view (f a)) (x : ExceptT ε (StateM σ) α) (s : σ) :
    view (outcome (x >>= f) s).2 = view (outcome x s).2 := by
  rw [outcome_bind]
  rcases outcome x s with ⟨_ | a, t⟩
  · rfl
  · exact hf a t

/-- A computation that fails leaves a part of what it starts from as it is. -/
def Atomic (view : σ → α) (x : ExceptT ε (StateM σ) β) : Prop :=
  ∀ s fault t, outcome x s = (.error fault, t) → view t = view s

section Atomic

variable {γ : Type} {view : σ → γ} {x : ExceptT ε (StateM σ) α} {f : α → ExceptT ε (StateM σ) β}

theorem Keeps.atomic (h : Keeps view x) : Atomic view x := by
  intro s fault t hfail
  have hs := h s
  rwa [hfail] at hs

/-- Before an atomic computation there may be any that keep the part. -/
theorem Keeps.then_atomic (hx : Keeps view x) (hf : ∀ a, Atomic view (f a)) :
    Atomic view (x >>= f) := by
  intro s fault t hfail
  have hs := hx s
  rw [outcome_bind] at hfail
  rcases h : outcome x s with ⟨_ | a, u⟩ <;> rw [h] at hs hfail
  · rw [← (Prod.mk.inj hfail).2]
    exact hs
  · exact (hf a u fault t hfail).trans hs

/-- After it there may be any that always succeed. -/
theorem Atomic.then_ok (hx : Atomic view x) (hf : ∀ a s, ∃ b t, outcome (f a) s = (.ok b, t)) :
    Atomic view (x >>= f) := by
  intro s fault t hfail
  rw [outcome_bind] at hfail
  rcases h : outcome x s with ⟨e | a, u⟩ <;> rw [h] at hfail
  · obtain ⟨-, rfl⟩ := Prod.mk.inj hfail
    exact hx s e u h
  · obtain ⟨b, v, hok⟩ := hf a u
    cases hok.symm.trans hfail

theorem atomic_of_ok (h : ∀ s, ∃ a t, outcome x s = (.ok a, t)) : Atomic view x := by
  intro s fault t hfail
  obtain ⟨a, u, hok⟩ := h s
  cases hok.symm.trans hfail

end Atomic

/-- Whatever a result fails with has a property. -/
def FailsWith (P : ε → Prop) (r : Except ε α) : Prop := ∀ fault, r = .error fault → P fault

/-- Whatever a computation fails with has a property. -/
def Reports (P : ε → Prop) (x : ExceptT ε (StateM σ) α) : Prop := ∀ s, FailsWith P (outcome x s).1

section FailsWith

variable {P : ε → Prop} {r : Except ε α} {x : ExceptT ε (StateM σ) α}

theorem failsWith_ok (a : α) : FailsWith P (.ok a) := by
  intro fault h
  cases h

theorem failsWith_error {e : ε} (h : P e) : FailsWith P (.error e : Except ε α) := by
  intro fault herror
  cases herror
  exact h

theorem FailsWith.bind {f : α → Except ε β} (hr : FailsWith P r)
    (hf : ∀ a, r = .ok a → FailsWith P (f a)) :
    FailsWith P (r >>= f) := by
  cases r with
  | error e => exact failsWith_error (hr e rfl)
  | ok a => exact hf a rfl

theorem FailsWith.mapError {Q : δ → Prop} {f : ε → δ} (hr : FailsWith P r)
    (hf : ∀ e, P e → Q (f e)) :
    FailsWith Q (r.mapError f) := by
  cases r with
  | error e => exact failsWith_error (hf e (hr e rfl))
  | ok a => exact failsWith_ok a

theorem failsWith_mapM {γ : Type} {f : γ → Except ε α} (hf : ∀ c, FailsWith P (f c))
    (c : Option γ) :
    FailsWith P (c.mapM f) := by
  cases c with
  | none => exact failsWith_ok none
  | some c =>
    rw [Option.mapM_some, ← bind_pure_comp]
    exact (hf c).bind fun a _ => failsWith_ok (some a)

theorem reports_pure (a : α) : Reports P (pure a : ExceptT ε (StateM σ) α) :=
  fun _ => failsWith_ok a

theorem reports_throw {e : ε} (h : P e) : Reports P (throw e : ExceptT ε (StateM σ) α) :=
  fun _ => failsWith_error h

/-- A sequence reports what its first part does, and what its second part does after a
result of the first. -/
theorem Reports.bind {f : α → ExceptT ε (StateM σ) β} (hx : Reports P x)
    (hf : ∀ a, (∃ s t, outcome x s = (.ok a, t)) → Reports P (f a)) : Reports P (x >>= f) := by
  intro s
  have hs := hx s
  rw [outcome_bind]
  rcases h : outcome x s with ⟨e | a, t⟩ <;> rw [h] at hs
  · exact failsWith_error (hs e rfl)
  · exact hf a ⟨s, t, h⟩ t

end FailsWith

theorem bind_ok {x : Except ε α} {f : α → Except ε β} {b : β} :
    (x >>= f) = .ok b ↔ ∃ a, x = .ok a ∧ f a = .ok b := by
  cases x <;> simp [bind, Except.bind]

theorem map_ok {f : α → β} {x : Except ε α} {b : β} :
    f <$> x = .ok b ↔ ∃ a, x = .ok a ∧ f a = b := by
  cases x <;> simp [Functor.map, Except.map]

@[simp] theorem mapError_of_ok (f : ε → δ) (a : α) : Except.mapError f (.ok a) = .ok a := rfl

@[simp] theorem mapError_of_error (f : ε → δ) (e : ε) :
    Except.mapError f (.error e : Except ε α) = .error (f e) :=
  rfl

theorem mapError_ok {f : ε → δ} {x : Except ε α} {a : α} : x.mapError f = .ok a ↔ x = .ok a := by
  cases x <;> simp

namespace Action

@[simp] theorem outcome_stores (d : Device) :
    outcome (stores : Action ε Stores) d = (.ok d.stores, d) :=
  rfl

@[simp] theorem outcome_update (f : Stores → Stores) (d : Device) :
    outcome (update f : Action ε Unit) d = (.ok (), { d with stores := f d.stores }) := rfl

@[simp] theorem outcome_attempt (x : ExceptT ε Draw α) (d : Device) :
    outcome (attempt x : Action ε α) d =
      ((outcome x d.entropy).1, { d with entropy := (outcome x d.entropy).2 }) := rfl

@[simp] theorem outcome_draw (x : Draw α) (d : Device) :
    outcome (draw x : Action ε α) d =
      (.ok (x d.entropy).1, { d with entropy := (x d.entropy).2 }) := rfl

@[simp] theorem outcome_ofExcept (x : Except ε α) (d : Device) :
    outcome (ofExcept x : Action ε α) d = (x, d) := rfl

@[simp] theorem outcome_adapt (f : ε → δ) (x : Action ε α) (d : Device) :
    outcome (adapt f x) d = ((outcome x d).1.mapError f, (outcome x d).2) := by
  change (match x d with | (r, t) => (r.mapError f, t)) = _
  rfl

theorem outcome_adapt_ok {f : ε → δ} {x : Action ε α} {d d' : Device} {a : α} :
    outcome (adapt f x) d = (.ok a, d') ↔ outcome x d = (.ok a, d') := by
  rw [outcome_adapt, Prod.mk.injEq, mapError_ok, ← Prod.mk.injEq]

theorem reports_stores {P : ε → Prop} : Reports P (stores : Action ε Stores) :=
  fun d => failsWith_ok d.stores

theorem reports_update {P : ε → Prop} (f : Stores → Stores) :
    Reports P (update f : Action ε Unit) :=
  fun _ => failsWith_ok ()

theorem reports_draw {P : ε → Prop} (x : Draw α) : Reports P (draw x : Action ε α) :=
  fun _ => failsWith_ok _

theorem reports_attempt {P : ε → Prop} {x : ExceptT ε Draw α} (h : Reports P x) :
    Reports P (attempt x : Action ε α) :=
  fun d => h d.entropy

theorem reports_ofExcept {P : ε → Prop} {r : Except ε α} (h : FailsWith P r) :
    Reports P (ofExcept r : Action ε α) :=
  fun _ => h

theorem atomic_adapt {view : Device → β} {x : Action ε α} (h : Atomic view x) (f : ε → δ) :
    Atomic view (adapt f x) := by
  intro d fault d' hfail
  rw [outcome_adapt] at hfail
  rcases hx : outcome x d with ⟨e | a, t⟩ <;> rw [hx] at hfail
  · obtain ⟨-, rfl⟩ := Prod.mk.inj hfail
    exact h d e t hx
  · cases hfail

end Action

end DoubleRatchet
