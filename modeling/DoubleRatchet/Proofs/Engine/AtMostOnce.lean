import DoubleRatchet.Proofs.Engine.Runs

/-!
# Acceptance at most once

A state that has read a message does not read one with the same ratchet key and
counter again while it holds the chain, whatever else it writes and reads and
wherever in the record it stands. In particular a message that was just
accepted is refused when it comes in again.
-/
namespace DoubleRatchet

/-- The states of a device that only ever worked with the engine. -/
structure State.Settled (s : State) : Prop where
  coherent : s.Coherent
  version : s.version = currentVersion

theorem State.New.settled {s : State} (h : s.New) : s.Settled := ⟨h.coherent, h.version⟩

variable [Suite]

/-- A state lives on through operations, each time as what it becomes, and
holds the receiver chain of a ratchet key all the way. -/
inductive Lineage (c : Config) (peer : Address) (r : PublicKey) :
    Device → State → List Operation → State → Prop
  | here {d : Device} {s : State} : Lineage c peer r d s [] s
  | later {d : Device} {op : Operation} {ops : List Operation} {s t u : State}
      (becomes : Becomes c peer d op s t)
      (stored : t ∈ (op.perform c d).states peer) (holds : t.hasReceiverChain r = true)
      (rest : Lineage c peer r (op.perform c d) t ops u) : Lineage c peer r d s (op :: ops) u

theorem State.Settled.lasting (c : Config) : State.Lasting c State.Settled where
  initiator h := (Engine.started_new h).settled
  responder h := (Engine.respond_new h).1.settled
  writes h hm := ⟨h.coherent.encrypt hm, (State.sameSession_encrypt hm).version.trans h.version⟩
  reads h hr := ⟨(h.coherent.reads hr).1, hr.sameSession.version.trans h.version⟩

/-- A state for which a message is spent stays so in whatever it becomes. -/
theorem State.Spent.becomes {c : Config} {peer : Address} {r : PublicKey} {n : UInt32} {d : Device}
    {op : Operation} {s t : State} (hs : s.Spent r n) (h : s.Settled) (hb : Becomes c peer d op s t)
    (holds : t.hasReceiverChain r = true) : t.Spent r n := by
  cases hb with
  | kept => exact hs
  | writes _ written => exact hs.encrypt written
  | reads reading =>
    obtain ⟨-, plain, e', -, e₁, -, hreads⟩ := Engine.reading?_eq_some.mp reading
    exact hs.reads h.coherent hreads holds

theorem State.Spent.lineage {c : Config} {peer : Address} {r : PublicKey} {n : UInt32} {d : Device}
    {ops : List Operation} {s u : State} (hs : s.Spent r n) (h : s.Settled)
    (hl : Lineage c peer r d s ops u) :
    u.Spent r n ∧ u.Settled := by
  induction hl with
  | here => exact ⟨hs, h⟩
  | later becomes _ holds _ ih =>
    exact ih (hs.becomes h becomes holds) ((State.Settled.lasting c).becomes h becomes)

/-- The state that reads a message is settled, and so is every other state of the opened record. -/
theorem settled_opened {c : Config} {d : Device} {peer : Address}
    (h : ∀ s ∈ d.states peer, s.Settled) {m : Message} {r : Record} {used : Option UInt32}
    (hopen : Engine.opened c d.stores peer m = .ok (r, used)) :
    ∀ s ∈ r.states, s.Settled := by
  intro s hs
  rcases Engine.mem_opened hopen hs with hs | ⟨p, -, hown⟩
  · exact h s hs
  · exact (Engine.respond_new hown).1.settled

/-- After a first message of the current version is read, the record knows its base key. -/
theorem hasState_stored {c : Config} {d : Device} {peer : Address} {p : PreKeyMessage}
    {x : Engine.Reading} (hbound : d.Bounded c)
    (hopen : Engine.opened c d.stores peer (.preKey p) = .ok (x.record, x.used)) {now : UInt64}
    {e e' : Entropy} {plain : Bytes}
    (hreads : x.record.Reads c now p.message e plain x.position x.before x.after e')
    (version : p.version = currentVersion) : (x.stored c).hasState p.version p.baseKey = true := by
  have hknown : ∃ s ∈ x.record.states, s.version = p.version ∧ s.baseKey = p.baseKey := by
    obtain ⟨-, ⟨hknown, hrecord, -⟩ | ⟨-, own, hown, hrecord, -⟩⟩ := Engine.prepare_ok.mp hopen
    · rw [hrecord]
      simpa [Record.hasState] using hknown
    · obtain ⟨hnew, hbase, -⟩ := Engine.respond_new hown
      refine ⟨own, ?_, hnew.version.trans version.symm, hbase⟩
      simp [hrecord, Record.promote, Record.states]
  obtain ⟨s, hs, hversion, hbase⟩ := hknown
  have hstays : ∃ t ∈ (x.stored c).states, t.version = s.version ∧ t.baseKey = s.baseKey := by
    obtain ⟨e₁, -, hread⟩ := hreads.reads
    rw [Engine.Reading.states_stored, (bounded_opened hbound hopen).others_eq hreads.lt]
    obtain ⟨i, hi, rfl⟩ := List.getElem_of_mem hs
    by_cases hposition : i = x.position
    · subst hposition
      have hbefore : x.record.states[x.position] = x.before :=
        Option.some_inj.mp ((List.getElem?_eq_getElem hi).symm.trans hreads.place)
      rw [hbefore]
      exact ⟨x.after, List.mem_cons_self, hread.sameSession.version, hread.sameSession.baseKey⟩
    · refine ⟨_, List.mem_cons_of_mem _ ?_, rfl, rfl⟩
      exact List.mem_eraseIdx_iff_getElem.mpr ⟨i, hi, hposition, rfl⟩
  obtain ⟨t, ht, htversion, htbase⟩ := hstays
  rw [Record.hasState, List.any_eq_true]
  exact ⟨t, ht, by simp [htversion, htbase, hversion, hbase]⟩

/-- A message that comes in again right after it was accepted is refused as a
duplicate, and nothing changes: not even random bytes are drawn. -/
theorem decrypt_again {c : Config} {now : UInt64} {peer : Address} {m : Message} {d d' : Device}
    {plain : Bytes} (hbound : d.Bounded c) (hsettled : ∀ s ∈ d.states peer, s.Settled)
    (h : outcome (Engine.decrypt c now peer m) d = (.ok plain, d')) (incoming : m.Incoming)
    (again : UInt64) :
    ∃ index, outcome (Engine.decrypt c again peer m) d' =
      (.error (.message (.duplicate index m.inner.counter)), d') := by
  obtain ⟨x, hopen, hreads, -, hstores⟩ := Engine.decrypt_ok.mp h
  obtain ⟨e₁, -, hread⟩ := hreads.reads
  have hbefore := settled_opened hsettled hopen x.before (List.mem_of_getElem? hreads.place)
  have hspent := (hbefore.coherent.reads hread).2
  have hversion : m.inner.version = x.after.version :=
    hread.version.trans hread.sameSession.version.symm
  have hrecord : d'.stores.loadSession peer = x.stored c := by
    rw [hstores, Stores.loadSession_withoutUsed, Stores.loadSession_committed_self]
  cases m with
  | ratchet m =>
    exact Engine.decrypt_spent (congrArg (fun r => Except.ok (r, none)) hrecord) rfl hspent hversion
  | preKey p =>
    have htrusted : d'.stores.isTrusted peer p.identityKey = true := by
      rw [hstores, Stores.isTrusted_withoutUsed]
      exact Stores.isTrusted_committed_self _ _ _ _
    have hknown := hasState_stored hbound hopen hreads incoming.preKey_version
    have hprepare : Engine.prepare c d'.stores peer (d'.stores.loadSession peer) p =
        .ok (x.stored c, none) := by
      rw [hrecord]
      exact Engine.prepare_ok.mpr ⟨htrusted, .inl ⟨hknown, rfl, rfl⟩⟩
    exact Engine.decrypt_spent (m := .preKey p) hprepare rfl hspent hversion

/-- Once a message is accepted, the state that read it reads no message with
the same ratchet key and counter as long as it holds the chain; one that comes
in is a duplicate for it. The accepted message itself, when it comes in again at
once, is refused as a duplicate by the device, which stays as it is. -/
theorem accepted_at_most_once (c : Config) (keyPair : KeyPair) (registrationId : UInt32)
    (entropy : Entropy) (ops : List Operation) {now : UInt64} {peer : Address} {m : Message}
    {plain : Bytes} {d : Device}
    (h : outcome (Engine.decrypt c now peer m)
      ((Device.new keyPair registrationId entropy).run c ops) = (.ok plain, d)) :
    ∃ x, Engine.reading? c now peer m
      ((Device.new keyPair registrationId entropy).run c ops) = some x ∧
      (d.stores.loadSession peer).current = some x.after ∧
      (∀ later u, Lineage c peer m.inner.ratchetKey d x.after later u →
        ∀ m' : Message, m'.inner.ratchetKey = m.inner.ratchetKey →
        m'.inner.counter = m.inner.counter →
          ∀ now' e, (∀ plain' t e', outcome (u.decrypt c now' m'.inner) e ≠ (.ok (plain', t), e')) ∧
            (m'.Incoming → ∃ index, outcome (u.decrypt c now' m'.inner) e =
              (.error (.message (.duplicate index m.inner.counter)), e))) ∧
      (m.Incoming → ∀ again, ∃ index, outcome (Engine.decrypt c again peer m) d =
        (.error (.message (.duplicate index m.inner.counter)), d)) := by
  have hsettled := (State.Settled.lasting c).run keyPair registrationId entropy ops peer
  have hbound := bounded_run c keyPair registrationId entropy ops
  obtain ⟨x, hopen, hreads, -, hstores⟩ := Engine.decrypt_ok.mp h
  obtain ⟨e₁, -, hread⟩ := hreads.reads
  have hbefore := settled_opened hsettled hopen x.before (List.mem_of_getElem? hreads.place)
  have hspent := (hbefore.coherent.reads hread).2
  have hafter := (State.Settled.lasting c).reads hbefore hread
  refine ⟨x, Engine.reading?_eq_some.mpr ⟨hopen, plain, _, hreads⟩, ?_, ?_,
    decrypt_again hbound hsettled h⟩
  · rw [hstores, Stores.loadSession_withoutUsed, Stores.loadSession_committed_self]
    rfl
  · intro later u hlineage m' hkey hcounter now' e
    obtain ⟨hspent', hsettled'⟩ := hspent.lineage hafter hlineage
    rw [← hkey, ← hcounter] at hspent'
    refine ⟨fun plain' t e' hok => ?_, fun incoming => ?_⟩
    · exact State.not_reads_of_spent hspent' (State.decrypt_ok.mp hok)
    · obtain ⟨index, hrefused⟩ := State.decrypt_spent hspent'
        (incoming.inner_version.trans hsettled'.version.symm) c now' e
      exact ⟨index, hcounter ▸ hrefused⟩

omit [Suite] in
/-- A device reads the greeting of another one, and refuses it the second time. -/
theorem accepted_at_most_once_greeting :
    ∃ d,
      outcome (@Engine.decrypt Small.suite {} 0 Small.alice (Small.greeting {}))
        Small.publisher = (.ok [104, 105], d) ∧
      ∃ index, outcome (@Engine.decrypt Small.suite {} 9 Small.alice (Small.greeting {})) d =
        (.error (.message (.duplicate index 0)), d) := by
  let := Small.suite
  have hok : (outcome (Engine.decrypt {} 0 Small.alice (Small.greeting {})) Small.publisher).1 =
      .ok [104, 105] := by
    decide +kernel
  have hparse : Message.parse 3 (Small.greeting {}).serialized = .ok (Small.greeting {}) := by
    decide +kernel
  have hcounter : (Small.greeting {}).inner.counter = 0 := by decide +kernel
  obtain ⟨d, hd⟩ := outcome_of_result hok
  refine ⟨d, hd, ?_⟩
  rw [Small.publisher, Small.device] at hd
  obtain ⟨x, -, -, -, hagain⟩ := accepted_at_most_once {} _ _ _ _ hd
  exact hcounter ▸ hagain ⟨3, _, hparse⟩ 9

end DoubleRatchet
