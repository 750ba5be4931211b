import DoubleRatchet.Proofs.Engine.Alike

/-!
# Peers do not interfere

Errands for two peers can be done in either order, unless both are to use up one
and the same pre-key. So however the errands of many peers are interleaved, each
peer fares as if it were alone. Main statement: `errands_commute`.
-/
namespace DoubleRatchet

variable [Suite]

/-- An operation for a peer, with its own configuration and random bytes. -/
structure Errand where
  config : Config
  entropy : Entropy
  op : Operation
  peer : Address
  concerns : op.peer? = some peer

namespace Errand

/-- What an errand gives, and the stores after it. -/
def perform (x : Errand) (s : Stores) : Except SessionError Answer × Stores :=
  ((outcome (x.op.act x.config) ⟨s, x.entropy⟩).1,
    (outcome (x.op.act x.config) ⟨s, x.entropy⟩).2.stores)

/-- Both errands are first messages of new sessions, and they name the same one-time pre-key. -/
def Clash (s : Stores) (x y : Errand) : Prop :=
  ∃ id, x.op.claims s = some id ∧ y.op.claims s = some id

variable {x y : Errand} {s t : Stores} {shared : UInt32 → Prop}

theorem perform_alike (h : s.Alike x.peer shared t)
    (hclaimed : ∀ id, x.op.claims s = some id → shared id) :
    (x.perform t).1 = (x.perform s).1 ∧ (x.perform s).2.Alike x.peer shared (x.perform t).2 := by
  have hdevice : Device.Alike x.peer shared ⟨s, x.entropy⟩ ⟨t, x.entropy⟩ := ⟨h, rfl⟩
  obtain ⟨hresult, halike⟩ := x.op.act_alike x.config x.concerns hdevice hclaimed
  exact ⟨hresult, halike.stores⟩

theorem alike_perform (x : Errand) (s : Stores) {other : Address} (hother : other ≠ x.peer) :
    s.Alike other (fun id => x.op.claims s ≠ some id) (x.perform s).2 := by
  have halike := x.op.alike_perform x.config ⟨s, x.entropy⟩ x.concerns hother
  rw [x.op.perform_eq] at halike
  exact halike

/-- Whatever an errand claims, the record and the identity of another peer stay. -/
theorem undisturbed (x : Errand) (s : Stores) {other : Address} (hother : other ≠ x.peer) :
    s.Alike other (fun _ => False) (x.perform s).2 :=
  (x.alike_perform s hother).mono fun _ => False.elim

theorem perform_error {fault : SessionError} (h : (x.perform s).1 = .error fault) :
    (x.perform s).2 = s :=
  Operation.act_error x.concerns (Prod.ext h rfl)

/-- What an errand claims, it claims after one for another peer. -/
theorem claims_perform (hpeers : x.peer ≠ y.peer) : x.op.claims (y.perform s).2 = x.op.claims s :=
  Operation.claims_alike x.concerns (y.alike_perform s hpeers)

/-- Of two errands that clash the second does not succeed if the first one has. -/
theorem not_both_of_clash (hpeers : x.peer ≠ y.peer) (hclash : Clash s x y)
    {answer answer' : Answer} (hx : (x.perform s).1 = .ok answer) :
    (y.perform (x.perform s).2).1 ≠ .ok answer' := by
  intro hy
  obtain ⟨id, hclaims, hclaims'⟩ := hclash
  have hgone := (Operation.claims_ok (Prod.ext hx rfl) hclaims).2
  have hstays : y.op.claims (x.perform s).2 = some id := (claims_perform hpeers.symm).trans hclaims'
  exact (Operation.claims_ok (Prod.ext hy rfl) hstays).1 hgone

/-- Errands for two peers that do not clash give the same in either order. -/
theorem result_perform (hpeers : x.peer ≠ y.peer) (hapart : ¬ Clash s x y) :
    (x.perform (y.perform s).2).1 = (x.perform s).1 ∧
      (x.perform s).2.Alike x.peer (fun id => y.op.claims s ≠ some id)
        (x.perform (y.perform s).2).2 :=
  perform_alike (y.alike_perform s hpeers) fun id hid hid' => hapart ⟨id, hid, hid'⟩

omit [Suite] in
theorem Clash.symm (h : Clash s x y) : Clash s y x := by
  obtain ⟨id, hx, hy⟩ := h
  exact ⟨id, hy, hx⟩

/-- And they leave the peer of the first one alike in either order. -/
theorem alike_perform_perform (hpeers : x.peer ≠ y.peer) (hapart : ¬ Clash s x y) :
    (y.perform (x.perform s).2).2.Alike x.peer (fun id => y.op.claims s ≠ some id)
      (x.perform (y.perform s).2).2 := by
  have hsecond := y.alike_perform (x.perform s).2 hpeers
  rw [claims_perform hpeers.symm] at hsecond
  exact hsecond.symm.trans (result_perform hpeers hapart).2

/-- Errands for two peers that do not clash leave the same stores in either order. -/
theorem perform_comm (hpeers : x.peer ≠ y.peer) (hapart : ¬ Clash s x y) :
    (y.perform (x.perform s).2).2 = (x.perform (y.perform s).2).2 := by
  have hx := alike_perform_perform hpeers hapart
  have hy := (alike_perform_perform hpeers.symm fun h => hapart h.symm).symm
  refine Stores.eq_of_alike (fun other => ?_) fun id => ?_
  · by_cases hox : other = x.peer
    · exact hox ▸ hx.mono fun _ => False.elim
    · by_cases hoy : other = y.peer
      · exact hoy ▸ hy.mono fun _ => False.elim
      · have hfirst := (x.undisturbed s hox).trans (y.undisturbed (x.perform s).2 hoy)
        exact hfirst.symm.trans ((y.undisturbed s hoy).trans (x.undisturbed (y.perform s).2 hox))
  · by_cases hid : y.op.claims s = some id
    · exact hy.preKeys id fun hid' => hapart ⟨id, hid', hid⟩
    · exact hx.preKeys id hid

/-- The stores after a number of errands. -/
def performAll (s : Stores) (xs : List Errand) : Stores := xs.foldl (fun s x => (x.perform s).2) s

@[simp] theorem performAll_nil (s : Stores) : performAll s [] = s := rfl

@[simp] theorem performAll_cons (s : Stores) (x : Errand) (xs : List Errand) :
    performAll s (x :: xs) = performAll (x.perform s).2 xs := rfl

/-- What errands give, each to its peer. -/
def results (s : Stores) : List Errand → List (Address × Except SessionError Answer)
  | [] => []
  | x :: xs => (x.peer, (x.perform s).1) :: results (x.perform s).2 xs

/-- The one-time pre-keys that errands claim, each for its peer. -/
def claimed (s : Stores) : List Errand → List (Address × UInt32)
  | [] => []
  | x :: xs => ((x.op.claims s).map fun id => (x.peer, id)).toList ++ claimed (x.perform s).2 xs

/-- No one-time pre-key is claimed for two peers. -/
def Apart (s : Stores) (xs : List Errand) : Prop :=
  ∀ id p q, (p, id) ∈ claimed s xs → (q, id) ∈ claimed s xs → p = q

/-- What a run does for a peer, it does without the errands for others, if
these claim none of the pre-keys that are shared and its own claim no others. -/
theorem own_alike {peer : Address} {xs : List Errand} (h : s.Alike peer shared t)
    (hown : ∀ id, (peer, id) ∈ claimed s xs → shared id)
    (hothers : ∀ q id, (q, id) ∈ claimed s xs → q ≠ peer → ¬ shared id) :
    (performAll s xs).Alike peer shared (performAll t (xs.filter fun x => x.peer = peer)) ∧
      results t (xs.filter fun x => x.peer = peer) = (results s xs).filter fun r => r.1 = peer := by
  induction xs generalizing s t with
  | nil => exact ⟨h, rfl⟩
  | cons x xs ih =>
    have hlater {q : Address} {id : UInt32} (hq : (q, id) ∈ claimed (x.perform s).2 xs) :
        (q, id) ∈ claimed s (x :: xs) := List.mem_append_right _ hq
    have hclaim {id : UInt32} (hid : x.op.claims s = some id) :
        (x.peer, id) ∈ claimed s (x :: xs) := by
      simp [claimed, hid]
    have hrest :=
      fun t h => ih (s := (x.perform s).2) (t := t) h (fun id hid => hown id (hlater hid))
      fun q id hq => hothers q id (hlater hq)
    by_cases hpeer : x.peer = peer
    · subst hpeer
      obtain ⟨hresult, halike⟩ := perform_alike h fun id hid => hown id (hclaim hid)
      obtain ⟨hstores, hresults⟩ := hrest _ halike
      simp only [List.filter_cons, decide_true, if_true, performAll_cons,
        results, hresult, hresults]
      exact ⟨hstores, trivial⟩
    · have hkept := (x.alike_perform s (Ne.symm hpeer)).mono fun _ hid hclaims =>
        hothers _ _ (hclaim hclaims) hpeer hid
      obtain ⟨hstores, hresults⟩ := hrest t (hkept.symm.trans h)
      simp only [List.filter_cons, hpeer, decide_false, Bool.false_eq_true, if_false,
        performAll_cons, results, hresults]
      exact ⟨hstores, trivial⟩

/-- In a run without clashes each peer fares as in a run of its own errands. -/
theorem own_errands {xs : List Errand} (h : Apart s xs) (peer : Address) :
    (performAll s xs).Alike peer (fun id => ∀ q, (q, id) ∈ claimed s xs → q = peer)
        (performAll s (xs.filter fun x => x.peer = peer)) ∧
      results s (xs.filter fun x => x.peer = peer) = (results s xs).filter fun r => r.1 = peer :=
  own_alike (.refl _ _ _) (fun _ hid q hq => h _ q peer hq hid) fun q _ hq hne hshared =>
    hne (hshared q hq)

end Errand

/-- Two errands for different peers give the same results and leave the same
stores in either order, unless both are first messages of new sessions that name
one one-time pre-key: then at most one of them succeeds, whichever comes first.
An errand that fails changes nothing. And after any errands for any peers none
of which clash, each peer has the record and the pinned identity, and was given
the results, that its own errands alone lead to. -/
theorem errands_commute (s : Stores) :
    (∀ x y : Errand, x.peer ≠ y.peer → ¬ Errand.Clash s x y →
      (x.perform (y.perform s).2).1 = (x.perform s).1 ∧
      (y.perform (x.perform s).2).1 = (y.perform s).1 ∧
        (y.perform (x.perform s).2).2 = (x.perform (y.perform s).2).2) ∧
    (∀ x y : Errand, x.peer ≠ y.peer → Errand.Clash s x y →
      (∀ answer answer', (x.perform s).1 = .ok answer →
        (y.perform (x.perform s).2).1 ≠ .ok answer') ∧
        ∀ answer answer', (y.perform s).1 = .ok answer →
        (x.perform (y.perform s).2).1 ≠ .ok answer') ∧
    (∀ (x : Errand) fault, (x.perform s).1 = .error fault → (x.perform s).2 = s) ∧
    ∀ xs : List Errand, Errand.Apart s xs → ∀ peer,
      let own := xs.filter fun x => x.peer = peer
      (Errand.performAll s own).sessions.get? peer = (Errand.performAll s xs).sessions.get? peer ∧
        (Errand.performAll s own).identity.known.get? peer =
          (Errand.performAll s xs).identity.known.get? peer ∧
        Errand.results s own = (Errand.results s xs).filter fun r => r.1 = peer := by
  refine ⟨fun x y hpeers hapart => ?_, fun x y hpeers hclash => ?_,
    fun x fault => Errand.perform_error, fun xs hapart peer => ?_⟩
  · have hy := Errand.result_perform hpeers.symm fun h => hapart h.symm
    exact ⟨(Errand.result_perform hpeers hapart).1, hy.1, Errand.perform_comm hpeers hapart⟩
  · exact ⟨fun _ _ => Errand.not_both_of_clash hpeers hclash,
      fun _ _ => Errand.not_both_of_clash hpeers.symm hclash.symm⟩
  · obtain ⟨halike, hresults⟩ := Errand.own_errands hapart peer
    exact ⟨halike.record, halike.pinned, hresults⟩

namespace Small

/-- The publisher is to read the greeting as one from some address. -/
def greeted (peer : Address) : Errand := ⟨{}, entropy 30, .decrypt 0 peer (greeting {}), peer, rfl⟩

/-- It is to write to some address. -/
def reply (peer : Address) : Errand := ⟨{}, entropy 40, .encrypt peer [7], peer, rfl⟩

end Small

omit [Suite] in
/-- The greeting of a new session is read from one address only. What the
publisher fails to do with another one does not keep it from reading it. -/
theorem errands_commute_greeted :
    let := Small.suite
    let s := Small.publisher.stores
    Errand.Clash s (Small.greeted Small.alice) (Small.greeted Small.bob) ∧
    (∀ answer, ((Small.greeted Small.bob).perform ((Small.greeted Small.alice).perform s).2).1 ≠
      .ok answer) ∧
    ((Small.greeted Small.alice).perform ((Small.reply Small.bob).perform s).2).1 =
      .ok (.read [104, 105]) ∧
    Errand.Apart s [Small.greeted Small.alice, Small.reply Small.bob, Small.reply Small.alice] ∧
    (Errand.performAll s [Small.greeted Small.alice, Small.reply Small.alice]).sessions.get?
      Small.alice =
      (Errand.performAll s [Small.greeted Small.alice, Small.reply Small.bob,
        Small.reply Small.alice]).sessions.get?
        Small.alice := by
  intro _ s
  have hread : ((Small.greeted Small.alice).perform s).1 = .ok (.read [104, 105]) := by
    decide +kernel
  have hclaims : ∀ peer ∈ [Small.alice, Small.bob], (Small.greeted peer).op.claims s = some 1 := by
    decide +kernel
  have hnone : ∀ t peer, (Small.reply peer).op.claims t = none := fun _ _ => rfl
  have hclash : Errand.Clash s (Small.greeted Small.alice) (Small.greeted Small.bob) :=
    ⟨1, hclaims _ (by simp), hclaims _ (by simp)⟩
  have hfree : ¬ Errand.Clash s (Small.greeted Small.alice) (Small.reply Small.bob) := by
    rintro ⟨id, -, hid⟩
    cases hid
  have hapart : Errand.Apart s [Small.greeted Small.alice, Small.reply Small.bob,
      Small.reply Small.alice] := by
    intro id p q hp hq
    simp only [Errand.claimed, hclaims _ (List.mem_cons_self), hnone,
      Option.map_some, Option.map_none, Option.toList_some, Option.toList_none, List.append_nil,
      List.mem_singleton, Prod.mk.injEq] at hp hq
    rw [hp.1, hq.1]
  obtain ⟨hcommute, hclashes, -, hruns⟩ := errands_commute s
  have hpeers : (Small.greeted Small.alice).peer ≠ (Small.greeted Small.bob).peer := by decide
  refine ⟨hclash, fun answer => (hclashes _ _ hpeers hclash).1 _ answer hread, ?_, hapart, ?_⟩
  · exact (hcommute _ (Small.reply Small.bob) hpeers hfree).1.trans hread
  · exact (hruns _ hapart Small.alice).1

end DoubleRatchet
