import DoubleRatchet.Proofs.Engine.PreKeyUse
import DoubleRatchet.Proofs.Engine.Readers
import DoubleRatchet.Proofs.Sealed.Deliveries

/-!
# One-time pre-keys are used once

A first message of a new session uses up the one-time pre-key that it names, and
nothing else does: not a message that fails, not one for a session that exists.
If no id is supplied a second time, a pre-key that was used is gone for good, so
that no two sessions with whatever peers are built from it. Main statement:
`one_time_keys_used_once`.
-/
namespace DoubleRatchet

variable [Suite]

/-- What a party may be asked for: a call, or to make or store one-time pre-keys. -/
inductive Demand
  | call (x : Call)
  | replenish (start count : Nat)
  | store (id : UInt32) (r : PreKeyRecord)

namespace Demand

/-- The device after a demand, whether it succeeded or not. -/
def perform (d : Device) : Demand → Device
  | call x => x.perform d
  | replenish start count => (outcome (PreKeys.generate start count) d).2
  | store id r => { d with stores := d.stores.storePreKey id r }

def succeeds (d : Device) : Demand → Bool
  | call x => x.succeeds d
  | replenish start count => (outcome (PreKeys.generate start count) d).1.isOk
  | store _ _ => true

/-- The ids under which a demand stores one-time pre-keys. -/
def supplies : Demand → List UInt32
  | call (.operation _ op) => op.supplies
  | replenish start count => PreKeys.idsFrom start count
  | store id _ => [id]
  | call _ => []

/-- The operation by which a demand reads a message of a session. -/
def reads? (d : Device) : Demand → Option (Config × Operation)
  | call x => x.reads? d
  | _ => none

/-- A demand builds a responder's state for a first message and stores it. -/
def Answers (d : Device) (x : Demand) (peer : Address) (m : PreKeyMessage) : Prop :=
  (∃ c now, x.reads? d = some (c, .decrypt now peer (.preKey m))) ∧ x.succeeds d = true ∧
    (d.stores.loadSession peer).hasState m.version m.baseKey = false

/-- The one-time pre-key with which that state is built, if it is with one. -/
def uses (d : Device) (x : Demand) : Option UInt32 :=
  if x.succeeds d then (x.reads? d).bind fun (_, op) => op.claims d.stores else none

variable {d : Device} {x : Demand} {c : Config} {op : Operation}

theorem reads_perform (h : x.reads? d = some (c, op)) :
    (x.perform d).stores = (op.perform c d).stores ∧
      x.succeeds d = (outcome (op.act c) d).1.isOk := by
  cases x with
  | call x => exact x.reads_perform h
  | replenish => cases h
  | store => cases h

theorem reads_openSealed (c : Config) (now : UInt64) {root : PublicKey} {input : Bytes}
    {time : UInt64} {localAddress : Address} {delivery : Address × Message}
    (h : SealedEngine.delivered d root input time localAddress = some delivery) :
    (call (.openSealed c now root input time localAddress)).reads? d =
      some (c, .decrypt now delivery.1 delivery.2) := by
  rw [reads?, Call.reads?, h]
  rfl

theorem uses_of_reads (h : x.reads? d = some (c, op)) :
    x.uses d = if (outcome (op.act c) d).1.isOk then op.claims d.stores else none := by
  rw [uses, (reads_perform h).2, h]
  rfl

theorem Answers.uses_eq {peer : Address} {m : PreKeyMessage} (h : x.Answers d peer m) :
    x.uses d = m.preKeyId := by
  obtain ⟨⟨c, now, hreads⟩, hsucceeds, hnew⟩ := h
  rw [uses_of_reads hreads, ← (reads_perform hreads).2, if_pos hsucceeds]
  exact Operation.claims_preKey hnew

/-- What is used is stored before, and not any more after. -/
theorem preKeys_of_uses {id : UInt32} (h : x.uses d = some id) :
    d.stores.preKeys.get? id ≠ none ∧ (x.perform d).stores.preKeys.get? id = none := by
  rw [uses] at h
  split at h
  · next hsucceeds =>
    obtain ⟨⟨c, op⟩, hreads, hclaims⟩ := Option.bind_eq_some_iff.mp h
    obtain ⟨hstores, hok⟩ := reads_perform hreads
    rw [hsucceeds] at hok
    obtain ⟨answer, d', hrun⟩ := outcome_of_isOk hok.symm
    have hresult := Operation.claims_ok hrun hclaims
    rwa [hstores, op.perform_eq, hrun]
  · cases h

/-- A message that is read touches no one-time pre-key but the one that it uses up. -/
theorem preKeys_reads (h : x.reads? d = some (c, op)) (hsupplies : op.supplies = []) {id : UInt32}
    (huses : x.uses d ≠ some id) :
    (x.perform d).stores.preKeys.get? id = d.stores.preKeys.get? id := by
  rw [(reads_perform h).1]
  refine op.preKeys_perform c d (hsupplies ▸ List.not_mem_nil) fun hok hclaims => huses ?_
  rw [uses_of_reads h, if_pos hok, hclaims]

/-- A demand leaves all one-time pre-keys as they are that it neither supplies nor uses up. -/
theorem preKeys_perform {id : UInt32} (hsupplies : id ∉ x.supplies) (huses : x.uses d ≠ some id) :
    (x.perform d).stores.preKeys.get? id = d.stores.preKeys.get? id := by
  cases x with
  | replenish start count => exact PreKeys.get?_generate_of_notMem start count d hsupplies
  | store other r =>
    exact (Table.get?_insert _ _ _ _).trans
      (if_neg fun heq => hsupplies (List.mem_singleton.mpr heq))
  | call x =>
    cases x with
    | operation c op =>
      cases op with
      | decrypt now peer m => exact preKeys_reads rfl rfl huses
      | generate | process | encrypt =>
        exact Operation.preKeys_perform c d hsupplies fun _ hclaims => by cases hclaims
    | sealFor destination certificate plain fallback =>
      rcases SealedEngine.stores_encrypt destination certificate plain fallback d with
        hsame | hencrypt
      · rw [perform, Call.perform, hsame]
      · rw [perform, Call.perform, hencrypt]
        have hnone : id ∉ (Operation.encrypt destination plain).supplies := List.not_mem_nil
        exact Operation.preKeys_perform {} d hnone fun _ hclaims => by cases hclaims
    | openSealed c now root input time localAddress =>
      cases hdelivered : SealedEngine.delivered d root input time localAddress with
      | none => rw [perform, Call.perform, SealedEngine.decrypt_undelivered c now hdelivered]
      | some delivery => exact preKeys_reads (reads_openSealed c now hdelivered) rfl huses

/-- Every state that is stored after a demand continues one that was stored or is set up. -/
theorem origin_demand {peer : Address} {s : State} (hs : s ∈ (x.perform d).states peer) :
    ∃ r, r.SameSession s ∧ Origin peer d (x.Answers d peer) r := by
  have hsame (h : (x.perform d).stores.sessions = d.stores.sessions) :
      ∃ r, r.SameSession s ∧ Origin peer d (x.Answers d peer) r := by
    refine ⟨s, .refl s, .stored ?_⟩
    rwa [Device.states, Stores.loadSession, h] at hs
  have hreads {c : Config} {op : Operation} (h : x.reads? d = some (c, op)) :
      ∃ r, r.SameSession s ∧ Origin peer d (x.Answers d peer) r := by
    rw [Device.states, (reads_perform h).1] at hs
    obtain ⟨r, hsession, horigin⟩ := origin_perform c d op hs
    refine ⟨r, hsession, horigin.mono fun m hm => ?_⟩
    obtain ⟨⟨now, rfl⟩, hok, hnew⟩ := hm
    exact ⟨⟨c, now, h⟩, (reads_perform h).2.trans hok, hnew⟩
  have hother {c : Config} {op : Operation} (h : (x.perform d).stores = (op.perform c d).stores)
      (hnone : ∀ now peer m, op ≠ .decrypt now peer m) :
      ∃ r, r.SameSession s ∧ Origin peer d (x.Answers d peer) r := by
    rw [Device.states, h] at hs
    obtain ⟨r, hsession, horigin⟩ := origin_perform c d op hs
    exact ⟨r, hsession, horigin.mono fun m hm => absurd hm.1.choose_spec (hnone _ _ _)⟩
  cases x with
  | replenish start count =>
    exact hsame (PreKeys.keeps_generate Stores.sessions (fun _ _ _ => rfl) _ _ d)
  | store id r => exact hsame rfl
  | call x =>
    cases x with
    | operation c op =>
      cases op with
      | decrypt now other m => exact hreads rfl
      | generate | process | encrypt => exact hother rfl (by simp)
    | sealFor destination certificate plain fallback =>
      rcases SealedEngine.stores_encrypt destination certificate plain fallback d with h | h
      · exact hsame (congrArg Stores.sessions h)
      · exact @hother {} (.encrypt destination plain) h (by simp)
    | openSealed c now root input time localAddress =>
      cases hdelivered : SealedEngine.delivered d root input time localAddress with
      | none =>
        exact hsame (congrArg Stores.sessions (SealedEngine.decrypt_undelivered c now hdelivered))
      | some delivery => exact hreads (reads_openSealed c now hdelivered)

end Demand

/-- The device after a number of demands. -/
def Device.attend (d : Device) (xs : List Demand) : Device := xs.foldl Demand.perform d

@[simp] theorem Device.attend_nil (d : Device) : d.attend [] = d := rfl

@[simp] theorem Device.attend_cons (d : Device) (x : Demand) (xs : List Demand) :
    d.attend (x :: xs) = (x.perform d).attend xs := rfl

theorem Device.attend_append (d : Device) (xs ys : List Demand) :
    d.attend (xs ++ ys) = (d.attend xs).attend ys :=
  List.foldl_append

/-- The one-time pre-keys with which responders' states are built in a run, in this order. -/
def Device.used (d : Device) : List Demand → List UInt32
  | [] => []
  | x :: xs => (x.uses d).toList ++ (x.perform d).used xs

theorem Device.used_append (d : Device) (xs ys : List Demand) :
    d.used (xs ++ ys) = d.used xs ++ (d.attend xs).used ys := by
  induction xs generalizing d with
  | nil => rfl
  | cons x xs ih => rw [List.cons_append, used, ih, used, List.append_assoc, attend_cons]

/-- Where a device stands in a run: every pre-key that it stores was supplied,
and those that were used are gone, each used once. -/
structure Device.Accounts (d : Device) (supplied used : List UInt32) : Prop where
  stored : ∀ id, d.stores.preKeys.get? id ≠ none → id ∈ supplied
  gone : ∀ id ∈ used, id ∈ supplied ∧ d.stores.preKeys.get? id = none
  once : used.Nodup

namespace Device.Accounts

variable {d : Device} {supplied used : List UInt32}

theorem perform (h : d.Accounts supplied used) {x : Demand}
    (hnew : ∀ id ∈ x.supplies, id ∉ supplied) :
    (x.perform d).Accounts (supplied ++ x.supplies) (used ++ (x.uses d).toList) := by
  refine ⟨fun id hid => ?_, fun id hid => ?_, ?_⟩
  · by_cases hsupplies : id ∈ x.supplies
    · exact List.mem_append_right _ hsupplies
    · have huses : x.uses d ≠ some id := fun huses => hid (Demand.preKeys_of_uses huses).2
      rw [Demand.preKeys_perform hsupplies huses] at hid
      exact List.mem_append_left _ (h.stored id hid)
  · rcases List.mem_append.mp hid with hid | hid
    · obtain ⟨hsupplied, hgone⟩ := h.gone id hid
      have huses : x.uses d ≠ some id := fun huses => (Demand.preKeys_of_uses huses).1 hgone
      refine ⟨List.mem_append_left _ hsupplied, ?_⟩
      rw [Demand.preKeys_perform (fun hsupplies => hnew id hsupplies hsupplied) huses, hgone]
    · obtain ⟨hstored, hgone⟩ := Demand.preKeys_of_uses (Option.mem_toList.mp hid)
      exact ⟨List.mem_append_left _ (h.stored id hstored), hgone⟩
  · refine List.nodup_append.mpr ⟨h.once, by cases x.uses d <;> simp, fun id hid id' hid' heq => ?_⟩
    exact (Demand.preKeys_of_uses (Option.mem_toList.mp hid')).1 (heq ▸ (h.gone id hid).2)

theorem attend (h : d.Accounts supplied used) {xs : List Demand}
    (once : (supplied ++ xs.flatMap Demand.supplies).Nodup) :
    (d.attend xs).Accounts (supplied ++ xs.flatMap Demand.supplies) (used ++ d.used xs) := by
  induction xs generalizing d supplied used with
  | nil => simpa [Device.used] using h
  | cons x xs ih =>
    rw [List.flatMap_cons, ← List.append_assoc] at once ⊢
    rw [Device.used, ← List.append_assoc]
    have hfirst := List.nodup_append.mp (List.nodup_append.mp once).1
    exact ih (h.perform fun id hid hid' => hfirst.2.2 id hid' id hid rfl) once

end Device.Accounts

omit [Suite] in
theorem Device.accounts_self (d : Device) : d.Accounts d.stores.preKeys.keys [] :=
  ⟨fun _ => Table.mem_keys, fun _ h => absurd h List.not_mem_nil, List.nodup_nil⟩

/-- A device has no one-time pre-key under an id, and refuses whatever first
message of a new session names it: for that reason, once there is no other. -/
structure Device.Refuses (d : Device) (id : UInt32) : Prop where
  gone : d.stores.preKeys.get? id = none
  fails : ∀ {x : Demand} {c : Config} {now : UInt64} {peer : Address} {m : PreKeyMessage},
    x.reads? d = some (c, .decrypt now peer (.preKey m)) → m.preKeyId = some id →
    (d.stores.loadSession peer).hasState m.version m.baseKey = false →
      x.succeeds d = false ∧ (x.perform d).stores = d.stores
  fault : ∀ (c : Config) (now : UInt64) (peer : Address) (m : PreKeyMessage), m.preKeyId = some id →
    (d.stores.loadSession peer).hasState m.version m.baseKey = false →
    d.stores.isTrusted peer m.identityKey = true →
    d.stores.signedPreKeys.get? m.signedPreKeyId ≠ none →
      outcome (Engine.decrypt c now peer (.preKey m)) d = (.error (.message (.unknownPreKey id)), d)

theorem Device.refuses_of_gone {d : Device} {id : UInt32} (gone : d.stores.preKeys.get? id = none) :
    d.Refuses id := by
  refine ⟨gone, fun {x c now peer m} hreads hid hnew => ?_,
    fun c now peer m hid hnew htrusted hsigned => ?_⟩
  · obtain ⟨hstores, hok⟩ := Demand.reads_perform hreads
    rw [hstores, hok, Operation.perform_eq]
    rcases hrun : outcome ((Operation.decrypt now peer (.preKey m)).act c) d with
      ⟨fault | answer, d'⟩
    · exact ⟨rfl, Operation.act_error rfl hrun⟩
    · exact absurd gone (Operation.claims_ok hrun ((Operation.claims_preKey hnew).trans hid)).1
  · obtain ⟨signed, hsigned⟩ := Option.ne_none_iff_exists'.mp hsigned
    have hprepare : Engine.prepare c d.stores peer (d.stores.loadSession peer) m =
        .error (.message (.unknownPreKey id)) := by
      simp only [Engine.prepare, htrusted, hnew, Engine.respond,
        Stores.loadSignedPreKey, hsigned, hid, Option.mapM_some, Stores.loadPreKey, gone]
      rfl
    unfold Engine.decrypt Engine.decryptPreKey
    simp only [outcome_bind, Action.outcome_stores, Action.outcome_ofExcept, hprepare]

/-- In a run in which no id of a one-time pre-key is supplied a second time, no
two responders' states are built with one pre-key. Every state that is stored
continues another one or is set up, as responder only with a pre-key that is
stored if the message names one; from then on that pre-key is gone, and first
messages of new sessions that name it are refused. What fails removes no
one-time pre-key, and neither does a first message of a session that exists. -/
theorem one_time_keys_used_once (d₀ : Device) (demands : List Demand)
    (once : (d₀.stores.preKeys.keys ++ demands.flatMap Demand.supplies).Nodup) :
    (d₀.used demands).Nodup ∧
    ∀ before x after, demands = before ++ x :: after →
      let d := d₀.attend before
      (∀ peer, ∀ s ∈ (x.perform d).states peer, ∃ r : State,
        r.SameSession s ∧ Origin peer d (x.Answers d peer) r) ∧
      (∀ peer m id, x.Answers d peer m → m.preKeyId = some id →
        id ∈ d₀.used demands ∧ (∃ key, d.stores.preKeys.get? id = some key) ∧
          ∀ later, later <+: after → ((x.perform d).attend later).Refuses id) ∧
      (x.succeeds d = false → ∀ id key, d.stores.preKeys.get? id = some key →
        (x.perform d).stores.preKeys.get? id = some key) ∧
      ∀ c now peer m, x.reads? d = some (c, .decrypt now peer (.preKey m)) →
        (d.stores.loadSession peer).hasState m.version m.baseKey = true →
          (x.perform d).stores.preKeys = d.stores.preKeys := by
  have haccounts := d₀.accounts_self.attend once
  refine ⟨haccounts.once, fun before x after hrun => ?_⟩
  subst hrun
  intro d
  refine ⟨fun peer s hs => Demand.origin_demand hs, fun peer m id hanswers hid => ?_,
    fun hfails id key hkey => ?_, fun c now peer m hreads hknown => ?_⟩
  · have huses : x.uses d = some id := hanswers.uses_eq.trans hid
    have hused {later : List Demand} : id ∈ d₀.used (before ++ x :: later) := by
      rw [Device.used_append, Device.used]
      exact List.mem_append_right _ (List.mem_append_left _ (Option.mem_toList.mpr huses))
    refine ⟨hused, Option.ne_none_iff_exists'.mp (Demand.preKeys_of_uses huses).1,
      fun later hlater => ?_⟩
    obtain ⟨rest, rfl⟩ := hlater
    have honce :
        (d₀.stores.preKeys.keys ++ (before ++ x :: later).flatMap Demand.supplies).Nodup := by
      refine once.sublist (List.Sublist.append_left ?_ _)
      simp [List.flatMap_append]
    have hgone := ((d₀.accounts_self.attend honce).gone id (List.mem_append_right _ hused)).2
    rw [Device.attend_append, Device.attend_cons] at hgone
    exact Device.refuses_of_gone hgone
  · have honce :
        (d₀.stores.preKeys.keys ++ before.flatMap Demand.supplies ++ x.supplies).Nodup := by
      refine once.sublist ?_
      simp [List.flatMap_append]
    have hbefore := (d₀.accounts_self.attend (List.nodup_append.mp honce).1).stored id
      (Option.ne_none_iff_exists'.mpr ⟨key, hkey⟩)
    rw [Demand.preKeys_perform (fun hid => (List.nodup_append.mp honce).2.2 id hbefore id hid rfl),
      hkey]
    rw [Demand.uses, hfails]
    simp
  · refine Table.ext_get? fun id => Demand.preKeys_reads hreads rfl ?_
    rw [Demand.uses_of_reads hreads]
    simp [Operation.claims, hknown]

namespace Small

/-- The publisher makes pre-keys. -/
def supply : Demand := .call (.operation {} (.generate 1 1 2 0))

/-- It unseals what Mallory sealed, a first message of Alice. -/
def ambush : Demand :=
  .call (.openSealed {} 0 default (resealed mallory (device 50) (.preKey second)) 0 bob)

def ambushed : Device := @Device.attend suite (device 101) [supply, ambush]

end Small

omit [Suite] in
/-- The pre-key that the message names is used up by Mallory, and Alice is refused. -/
theorem one_time_keys_used_once_ambush :
    ((Small.device 101).stores.preKeys.keys ++
      [Small.supply, Small.ambush].flatMap Demand.supplies).Nodup ∧
    @Device.used Small.suite (Small.device 101) [Small.supply, Small.ambush] = [1] ∧
    outcome (@Engine.decrypt Small.suite {} 0 Small.alice (.preKey Small.second)) Small.ambushed =
      (.error (.message (.unknownPreKey 1)), Small.ambushed) := by
  let := Small.suite
  have honce : ((Small.device 101).stores.preKeys.keys ++
      [Small.supply, Small.ambush].flatMap Demand.supplies).Nodup := by
    decide +kernel
  have hused : (Small.device 101).used [Small.supply, Small.ambush] = [1] := by decide +kernel
  obtain ⟨hdelivered, hsucceeds, hnew, hid⟩ :
      SealedEngine.delivered (Small.supply.perform (Small.device 101)) default
          (Small.resealed Small.mallory (Small.device 50) (.preKey Small.second)) 0 Small.bob =
        some (Small.mallory, .preKey Small.second) ∧
      Small.ambush.succeeds (Small.supply.perform (Small.device 101)) = true ∧
      ((Small.supply.perform (Small.device 101)).stores.loadSession Small.mallory).hasState
        Small.second.version
        Small.second.baseKey = false ∧
      Small.second.preKeyId = some 1 := by decide +kernel
  obtain ⟨hunknown, htrusted, hsigned⟩ :
      (Small.ambushed.stores.loadSession Small.alice).hasState Small.second.version
        Small.second.baseKey = false ∧
      Small.ambushed.stores.isTrusted Small.alice Small.second.identityKey = true ∧
      Small.ambushed.stores.signedPreKeys.get? Small.second.signedPreKeyId ≠ none := by
    decide +kernel
  have hanswers :
      Small.ambush.Answers (Small.supply.perform (Small.device 101)) Small.mallory Small.second :=
    ⟨⟨{}, 0, Demand.reads_openSealed {} 0 hdelivered⟩, hsucceeds, hnew⟩
  obtain ⟨-, hrun⟩ := one_time_keys_used_once (Small.device 101) [Small.supply, Small.ambush] honce
  obtain ⟨-, hgone, -, -⟩ := hrun [Small.supply] Small.ambush [] rfl
  obtain ⟨-, -, hlater⟩ := hgone Small.mallory Small.second 1 hanswers hid
  have hambushed : (Small.device 101).attend ([Small.supply] ++ [Small.ambush]) = Small.ambushed :=
    rfl
  have hrefuses := hlater [] (List.prefix_refl [])
  rw [Device.attend_nil, ← Device.attend_nil
    (Small.ambush.perform _), ← Device.attend_cons, ← Device.attend_append,
    hambushed] at hrefuses
  exact ⟨honce, hused, hrefuses.fault {} 0 Small.alice Small.second hid hunknown htrusted hsigned⟩

end DoubleRatchet