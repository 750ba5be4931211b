import DoubleRatchet.Proofs.Engine.Runs
import Mathlib.Data.List.Perm.Basic

/-!
# Records in order

An operation works for a peer among the states of its record, or among these
and one that it has just set up, which moves them back and the oldest one out
if the history is full. One state moves to the front, as what it has become, and
all others stay in their order. So no state is lost but at the end of a full
history, and states keep distinct names. Main statement: `records_ordered`.
-/
namespace DoubleRatchet

/-- What a state is found by in a record. -/
def State.name (s : State) : UInt8 × PublicKey := (s.version, s.baseKey)

/-- A state moves to the front, as what it has become. -/
inductive Turned (opened : List State) : List State → Prop
  | intro {position : Nat} {s t : State} (place : opened[position]? = some s)
      (session : s.SameSession t) :
      Turned opened (t :: opened.eraseIdx position)

theorem State.SameSession.name_eq {s t : State} (h : s.SameSession t) : t.name = s.name :=
  Prod.ext h.version h.baseKey

theorem Turned.head (s : State) (rest : List State) : Turned (s :: rest) (s :: rest) :=
  .intro (show (s :: rest)[0]? = some s from rfl) (.refl s)

/-- The names are the same ones, in another order. -/
theorem Turned.names_perm {opened states : List State} (h : Turned opened states) :
    (states.map State.name).Perm (opened.map State.name) := by
  obtain ⟨place, session⟩ := h
  rename_i position s t
  obtain ⟨hlt, rfl⟩ := List.getElem?_eq_some_iff.mp place
  rw [List.map_cons, session.name_eq, ← List.map_cons]
  exact (List.getElem_cons_eraseIdx_perm hlt).map _

namespace Record

/-- A new state moves those of a record within its bound back. -/
theorem Bounded.states_promote {r : Record} {bound : Nat} (h : r.Bounded bound) (own : State) :
    (r.promote own bound).states = own :: r.states.take bound := by
  rw [Record.states_promote]
  unfold archiveCurrent states
  cases hcurrent : r.current with
  | none => simp [h.current hcurrent]
  | some s => rfl

theorem hasState_iff_name {r : Record} {version : UInt8} {baseKey : PublicKey} :
    r.hasState version baseKey = true ↔ (version, baseKey) ∈ r.states.map State.name := by
  simp [hasState, State.name]

end Record

variable [Suite]

/-- The states among which an operation works for a peer. A new state comes
with a bundle, or with a first message whose base key the record does not know. -/
inductive Engages (c : Config) (peer : Address) (d : Device) : Operation → List State → Prop
  | stored (op : Operation) : Engages c peer d op (d.states peer)
  | initiator {b : Bundle} {sending : KeyPair} {agreed : State}
      (succeeds : (outcome (Engine.processBundle c peer b) d).1 = .ok ())
      (agree : (Engine.initiator d.stores b (Draw.keyPair d.entropy).1).state sending =
        .ok agreed) :
      Engages c peer d (.process peer b)
        (Engine.started d.stores b (Draw.keyPair d.entropy).1 agreed ::
          (d.states peer).take c.maxArchivedStates)
  | responder {now : UInt64} {m : PreKeyMessage} {own : State}
      (unknown : (d.stores.loadSession peer).hasState m.version m.baseKey = false)
      (respond : Engine.respond d.stores m = .ok own) :
      Engages c peer d (.decrypt now peer (.preKey m))
        (own :: (d.states peer).take c.maxArchivedStates)

/-- The record that is opened for a message holds the states that the operation works among. -/
theorem engages_opened {c : Config} {d : Device} (h : d.Bounded c) {now : UInt64} {peer : Address}
    {m : Message} {r : Record} {used : Option UInt32}
    (hopen : Engine.opened c d.stores peer m = .ok (r, used)) :
    Engages c peer d (.decrypt now peer m) r.states := by
  cases m with
  | ratchet m =>
    cases hopen
    exact .stored _
  | preKey m =>
    obtain ⟨-, ⟨-, rfl, -⟩ | ⟨unknown, own, respond, rfl, -⟩⟩ := Engine.prepare_ok.mp hopen
    · exact .stored _
    · rw [(h peer).states_promote own]
      exact .responder unknown respond

/-- A bundle puts a state on the base key that was drawn in front of the others. -/
theorem turned_process {c : Config} {d : Device} (h : d.Bounded c) (peer other : Address)
    (b : Bundle) :
    ((Operation.process other b).perform c d).states peer = d.states peer ∨
      ∃ opened, Engages c peer d (.process other b) opened ∧
        Turned opened (((Operation.process other b).perform c d).states peer) := by
  rcases hrun : outcome (Engine.processBundle c other b) d with ⟨fault | _, d'⟩
  · left
    rw [Operation.perform, hrun, Device.states, Engine.processBundle_error hrun, Device.states]
  · obtain ⟨-, -, base, sending, e₁, e₂, agreed, hbase, -, hagree, rfl⟩ :=
      Engine.processBundle_ok.mp hrun
    obtain rfl : (Draw.keyPair d.entropy).1 = base := congrArg Prod.fst hbase
    rw [Operation.perform, hrun]
    by_cases hpeer : peer = other
    · subst hpeer
      refine .inr ⟨_, .initiator (congrArg Prod.fst hrun) hagree, ?_⟩
      simp only [Device.states, Stores.loadSession_committed_self, (h peer).states_promote]
      exact .head _ _
    · left
      simp only [Device.states, Stores.loadSession_committed, if_neg hpeer]

/-- Whatever an operation does, a record stays as it is or one of the states
among which the operation works moves to the front. -/
theorem turned_perform {c : Config} {d : Device} (h : d.Bounded c) (peer : Address)
    (op : Operation) :
    (op.perform c d).states peer = d.states peer ∨
      ∃ opened, Engages c peer d op opened ∧ Turned opened ((op.perform c d).states peer) := by
  have hleaves := leaves_perform c peer d op
  unfold Device.states
  generalize hr : (op.perform c d).stores.loadSession peer = r at hleaves ⊢
  cases hleaves with
  | same => exact .inl rfl
  | @started b => exact hr ▸ turned_process h peer peer b
  | @written s t plain m current written =>
    have hstates :
        (d.stores.loadSession peer).states = s :: (d.stores.loadSession peer).previous := by
      rw [Record.states, current]
      rfl
    refine .inr ⟨_, .stored _, ?_⟩
    rw [Device.states, hstates]
    exact .intro (show (s :: _)[0]? = some s from rfl) (State.sameSession_encrypt written)
  | @read now m x plain e opened reads =>
    obtain ⟨e₁, -, hread⟩ := reads.reads
    refine .inr ⟨_, engages_opened h opened, ?_⟩
    rw [Engine.Reading.states_stored, (bounded_opened h opened).others_eq reads.lt]
    exact .intro reads.place hread.sameSession

/-- Every record that is stored has a current state. -/
def Device.Current (d : Device) : Prop :=
  ∀ peer r, d.stores.sessions.get? peer = some r → r.current.isSome

omit [Suite] in
theorem Stores.get?_committed {s : Stores} {peer other : Address} {identity : PublicKey}
    {r r' : Record} {u : Option UInt32}
    (h : ((s.committed peer identity r).withoutUsed u).sessions.get? other = some r') :
    r' = r ∨ s.sessions.get? other = some r' := by
  have hsessions :
      ((s.committed peer identity r).withoutUsed u).sessions = s.sessions.insert peer r := by
    cases u <;> rfl
  rw [hsessions, Table.get?_insert] at h
  split at h
  · exact .inl (Option.some_inj.mp h).symm
  · exact .inr h

theorem current_perform {c : Config} {d : Device} (h : d.Current) (op : Operation) :
    (op.perform c d).Current := by
  intro peer r hr
  have hacts := acts_perform c d op
  generalize (op.perform c d).stores = s at hacts hr
  cases hacts with
  | same => exact h peer r hr
  | made =>
    rw [sessions_generate] at hr
    exact h peer r hr
  | started =>
    rcases Stores.get?_committed (u := none) hr with rfl | hr
    · rfl
    · exact h peer r hr
  | written =>
    rcases Stores.get?_committed (u := none) hr with rfl | hr
    · rfl
    · exact h peer r hr
  | read =>
    rcases Stores.get?_committed hr with rfl | hr
    · rfl
    · exact h peer r hr

theorem current_run (c : Config) (keyPair : KeyPair) (registrationId : UInt32) (entropy : Entropy)
    (ops : List Operation) : ((Device.new keyPair registrationId entropy).run c ops).Current :=
  Device.run_induction (P := Device.Current) (fun _ op hd => current_perform hd op)
    (fun _ _ h => by cases h) ops

/-- The base key of a session that is started does not occur in the record yet,
and a message is one that was read from bytes. -/
def Operation.Regular (c : Config) (d : Device) : Operation → Prop
  | process peer b => (outcome (Engine.processBundle c peer b) d).1 = .ok () →
      ∀ s ∈ d.states peer, s.baseKey ≠ (Draw.keyPair d.entropy).1.publicKey
  | decrypt _ _ m => m.Incoming
  | _ => True

/-- Each operation of a run is regular where it is performed. -/
def Device.Regular (c : Config) : Device → List Operation → Prop
  | _, [] => True
  | d, op :: ops => op.Regular c d ∧ (op.perform c d).Regular c ops

/-- In each record every state has a name of its own. -/
def Device.Distinct (d : Device) : Prop := ∀ peer, ((d.states peer).map State.name).Nodup

/-- A state that is newly set up for a regular operation has a name that is new to the record. -/
theorem distinct_engaged {c : Config} {d : Device} (h : d.Distinct) {peer : Address}
    {op : Operation} (regular : op.Regular c d) {opened : List State}
    (engages : Engages c peer d op opened) : (opened.map State.name).Nodup := by
  have hbehind {own : State} (hown : own.name ∉ (d.states peer).map State.name) :
      ((own :: (d.states peer).take c.maxArchivedStates).map State.name).Nodup := by
    rw [List.map_cons, List.map_take, List.nodup_cons]
    exact ⟨fun hmem => hown (List.mem_of_mem_take hmem), (h peer).sublist (List.take_sublist _ _)⟩
  cases engages with
  | stored => exact h peer
  | @initiator b sending agreed succeeds agree =>
    refine hbehind fun hmem => ?_
    obtain ⟨s, hs, hname⟩ := List.mem_map.mp hmem
    obtain ⟨secrets, root, chain, -, -, rfl⟩ := Initiator.state_ok.mp agree
    exact regular succeeds s hs (congrArg Prod.snd hname)
  | @responder now m own unknown respond =>
    obtain ⟨hnew, hbase, -⟩ := Engine.respond_new respond
    have hname : own.name = (m.version, m.baseKey) := by
      rw [regular.preKey_version, ← hnew.version, ← hbase]
      rfl
    refine hbehind fun hmem => ?_
    have hknown := Record.hasState_iff_name.mpr (hname ▸ hmem)
    rw [unknown] at hknown
    cases hknown

theorem distinct_perform {c : Config} {d : Device} (hbound : d.Bounded c) (h : d.Distinct)
    {op : Operation} (regular : op.Regular c d) : (op.perform c d).Distinct := by
  intro peer
  rcases turned_perform hbound peer op with hsame | ⟨opened, engages, turned⟩
  · rw [hsame]
    exact h peer
  · exact turned.names_perm.nodup_iff.mpr (distinct_engaged h regular engages)

theorem distinct_run {c : Config} {d : Device} (hbound : d.Bounded c) (h : d.Distinct)
    {ops : List Operation} (regular : d.Regular c ops) : (d.run c ops).Distinct := by
  induction ops generalizing d with
  | nil => exact h
  | cons op ops ih =>
    exact ih (bounded_perform hbound op) (distinct_perform hbound h regular.1) regular.2

/-- Whatever a new device has been asked for, each record that it stores has a
current state, a history within the bound, and states with distinct names if
each generated base key was new to its record; and with whatever it is asked
for next, no state leaves a record but the oldest ones beyond the bound, when
one is set up in front of them. -/
theorem records_ordered (c : Config) (keyPair : KeyPair) (registrationId : UInt32)
    (entropy : Entropy) (ops : List Operation) :
    let d := (Device.new keyPair registrationId entropy).run c ops
    (∀ peer r, d.stores.sessions.get? peer = some r →
      r.current.isSome ∧ r.previous.length ≤ c.maxArchivedStates ∧
        ((Device.new keyPair registrationId entropy).Regular c ops →
          (r.states.map State.name).Nodup)) ∧
    ∀ op answer d', outcome (op.act c) d = (.ok answer, d') → ∀ peer,
      d'.states peer = d.states peer ∨
        ∃ opened, Engages c peer d op opened ∧ Turned opened (d'.states peer) := by
  intro d
  have hbound : d.Bounded c := bounded_run c keyPair registrationId entropy ops
  refine ⟨fun peer r hr => ?_, fun op answer d' hrun peer => ?_⟩
  · have hload : d.stores.loadSession peer = r := by rw [Stores.loadSession, hr]; rfl
    refine ⟨current_run c keyPair registrationId entropy ops peer r hr,
      hload ▸ (hbound peer).previous, fun regular => ?_⟩
    have hnew : (Device.new keyPair registrationId entropy).Bounded c :=
      fun _ => ⟨Nat.zero_le _, fun _ => rfl⟩
    have hdistinct : d.Distinct := distinct_run hnew (fun _ => List.nodup_nil) regular
    exact hload ▸ hdistinct peer
  · have hperform : op.perform c d = d' := by rw [op.perform_eq, hrun]
    exact hperform ▸ turned_perform hbound peer op

namespace Small

/-- A bundle of the device that the publisher knows as Alice. -/
def returned : Bundle :=
  @Bundle.mk 1 1 none 1 (device 7).stores.identity.keyPair.publicKey (List.replicate 64 0)
    (device 1).stores.identity.keyPair.publicKey

/-- The publisher answers the greeting and then starts two sessions of its own. -/
def crossing : List Operation :=
  [.generate 1 1 2 0, .decrypt 0 alice (greeting {}), .process alice returned,
    .process alice returned]

/-- The publisher after that, with a history of one state. -/
def crossed : Device := @Device.run suite { maxArchivedStates := 1 } (device 101) crossing

end Small

omit [Suite] in
/-- The session that Alice started has left the record; the other two are apart. -/
theorem records_ordered_crossing :
    @Device.Regular Small.suite { maxArchivedStates := 1 } (Small.device 101) Small.crossing ∧
    ∃ r, Small.crossed.stores.sessions.get? Small.alice = some r ∧ r.states.length = 2 ∧
      (r.states.map State.name).Nodup := by
  have hparse : Message.parse 3 (Small.greeting {}).serialized = .ok (Small.greeting {}) := by
    decide +kernel
  have regular :
      @Device.Regular Small.suite { maxArchivedStates := 1 } (Small.device 101) Small.crossing := by
    refine ⟨trivial, ⟨3, _, hparse⟩, fun _ => ?_, fun _ => ?_, trivial⟩ <;> decide +kernel
  have hlength :
      (Small.crossed.stores.sessions.get? Small.alice).map (fun r => r.states.length) = some 2 := by
    decide +kernel
  obtain ⟨r, hr, hstates⟩ := Option.map_eq_some_iff.mp hlength
  have hcrossed : Small.crossed = @Device.run Small.suite _ (.new _ _ _) Small.crossing := rfl
  obtain ⟨hrecords, -⟩ :=
    @records_ordered Small.suite { maxArchivedStates := 1 } _ _ _ Small.crossing
  rw [← hcrossed] at hrecords
  exact ⟨regular, r, hr, hstates, (hrecords Small.alice r hr).2.2 regular⟩

end DoubleRatchet
