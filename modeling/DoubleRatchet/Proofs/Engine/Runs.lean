import DoubleRatchet.Proofs.Engine.Operations
import DoubleRatchet.Proofs.Session.Coherence
import DoubleRatchet.Proofs.Suite

/-!
# Runs of a device

A device is used by one operation after another, some of which fail. `Acts`
says what one of them can do to the stores. What holds of every state that is
newly set up, and is kept when a state writes or reads a message, holds of every
state that is ever stored.
-/
namespace DoubleRatchet

/-- The states of the record for a peer, the current one first. -/
def Device.states (d : Device) (peer : Address) : List State := (d.stores.loadSession peer).states

/-- A new device. -/
def Device.new (keyPair : KeyPair) (registrationId : UInt32) (entropy : Entropy) : Device :=
  ⟨Stores.create keyPair registrationId, entropy⟩

/-- What a device may be asked to do. -/
inductive Operation
  | generate (deviceId start : UInt32) (count : Nat) (now : UInt64)
  | process (peer : Address) (bundle : Bundle)
  | encrypt (peer : Address) (plain : Bytes)
  | decrypt (now : UInt64) (peer : Address) (m : Message)

variable [Suite]

/-- The device after an operation, whether it succeeded or not. -/
def Operation.perform (c : Config) (d : Device) : Operation → Device
  | generate deviceId start count now =>
    (outcome (PreKeys.generateBundle deviceId start count now) d).2
  | process peer bundle => (outcome (Engine.processBundle c peer bundle) d).2
  | encrypt peer plain => (outcome (Engine.encrypt peer plain) d).2
  | decrypt now peer m => (outcome (Engine.decrypt c now peer m) d).2

/-- What an operation that succeeds gives. -/
inductive Answer
  | published (p : PublishedBundle)
  | started
  | written (m : Message)
  | read (plain : Bytes)
deriving DecidableEq

/-- An operation and what it gives. -/
def Operation.act (c : Config) : Operation → Action SessionError Answer
  | generate deviceId start count now =>
    .published <$> PreKeys.generateBundle deviceId start count now
  | process peer bundle => (fun _ => .started) <$> Engine.processBundle c peer bundle
  | encrypt peer plain => .written <$> Engine.encrypt peer plain
  | decrypt now peer m => .read <$> Engine.decrypt c now peer m

theorem Operation.perform_eq (c : Config) (d : Device) (op : Operation) :
    op.perform c d = (outcome (op.act c) d).2 := by
  cases op <;> simp only [act, perform, outcome_map]

/-- The device after a number of operations. -/
def Device.run (c : Config) (d : Device) (ops : List Operation) : Device :=
  ops.foldl (Operation.perform c) d

@[simp] theorem Device.run_nil (c : Config) (d : Device) : d.run c [] = d := rfl

@[simp] theorem Device.run_cons (c : Config) (d : Device) (op : Operation) (ops : List Operation) :
    d.run c (op :: ops) = (op.perform c d).run c ops := rfl

/-- What one operation preserves, a run preserves. -/
theorem Device.run_induction {c : Config} {P : Device → Prop}
    (step : ∀ d op, P d → P (Operation.perform c d op)) {d : Device} (start : P d)
    (ops : List Operation) : P (d.run c ops) := by
  induction ops generalizing d with
  | nil => exact start
  | cons op ops ih => exact ih (step d op start)

namespace PreKeys

/-- Making one-time pre-keys touches nothing but these. -/
theorem keeps_generate {α : Type} (view : Stores → α)
    (h : ∀ s id r, view (s.storePreKey id r) = view s) (id count : Nat) :
    Keeps (fun d => view d.stores) (generate id count) := by
  induction count generalizing id with
  | zero => exact fun _ => rfl
  | succ count ih =>
    unfold generate
    by_cases hid : UInt32.size ≤ id
    · rw [if_pos hid]
      exact fun _ => rfl
    · rw [if_neg hid]
      refine .bind (fun _ => rfl) fun pair => .bind (fun d => h d.stores _ _) fun _ =>
        .bind (ih _) fun keys => ?_
      exact fun _ => rfl

/-- Making a bundle touches nothing but pre-keys. -/
theorem keeps_generateBundle {α : Type} (view : Stores → α)
    (honeTime : ∀ s id r, view (s.storePreKey id r) = view s)
    (hsigned : ∀ s id r, view (s.storeSignedPreKey id r) = view s) (deviceId start : UInt32)
    (count : Nat) (now : UInt64) :
    Keeps (fun d => view d.stores) (generateBundle deviceId start count now) := by
  refine .bind (fun _ => rfl) fun stores => .bind (keeps_generate view honeTime _ _) fun keys => ?_
  refine .bind (fun _ => rfl) fun _ => .bind (fun _ => rfl) fun id =>
    .bind (fun _ => rfl) fun signed => ?_
  exact .bind (fun d => hsigned d.stores _ _) fun _ => .bind (fun _ => rfl) fun _ _ => rfl

/-- Without a bundle no signed pre-key is stored. -/
theorem generateBundle_error {deviceId start : UInt32} {count : Nat} {now : UInt64} {d d' : Device}
    {fault : SessionError}
    (h : outcome (generateBundle deviceId start count now) d = (.error fault, d')) :
    d'.stores.signedPreKeys = d.stores.signedPreKeys := by
  have hatomic :
      Atomic (fun d => d.stores.signedPreKeys) (generateBundle deviceId start count now) := by
    refine Keeps.then_atomic (fun _ => rfl) fun stores => ?_
    refine Keeps.then_atomic
      (keeps_generate Stores.signedPreKeys (fun _ _ _ => rfl) _ _) fun keys => ?_
    refine Keeps.then_atomic (fun _ => rfl) fun _ => Keeps.then_atomic (fun _ => rfl) fun id => ?_
    exact atomic_of_ok fun d => ⟨_, _, rfl⟩
  exact hatomic _ _ _ h

end PreKeys

/-- Making pre-keys leaves all identities alone. -/
theorem identity_generate (c : Config) (d : Device) (deviceId start : UInt32) (count : Nat)
    (now : UInt64) :
    ((Operation.generate deviceId start count now).perform c d).stores.identity =
      d.stores.identity :=
  PreKeys.keeps_generateBundle Stores.identity (fun _ _ _ => rfl)
    (fun _ _ _ => rfl) deviceId start count now d

/-- And all records. -/
theorem sessions_generate (c : Config) (d : Device) (deviceId start : UInt32) (count : Nat)
    (now : UInt64) :
    ((Operation.generate deviceId start count now).perform c d).stores.sessions =
      d.stores.sessions :=
  PreKeys.keeps_generateBundle Stores.sessions (fun _ _ _ => rfl)
    (fun _ _ _ => rfl) deviceId start count now d

theorem loadSession_generate (c : Config) (d : Device) (deviceId start : UInt32) (count : Nat)
    (now : UInt64) (peer : Address) :
    ((Operation.generate deviceId start count now).perform c d).stores.loadSession peer =
      d.stores.loadSession peer := by
  rw [Stores.loadSession, sessions_generate, Stores.loadSession]

/-- What an operation leaves as the stores. Unless it makes pre-keys they are as
before, or the record of one peer is committed under a trusted identity. -/
inductive Acts (c : Config) (d : Device) : Operation → Stores → Prop
  | same (op : Operation) : Acts c d op d.stores
  | made (deviceId start : UInt32) (count : Nat) (now : UInt64) :
      Acts c d (.generate deviceId start count now)
        ((Operation.generate deviceId start count now).perform c d).stores
  | started {peer : Address} {b : Bundle} {base sending : KeyPair} {agreed : State}
      (trusted : d.stores.isTrusted peer b.identityKey = true)
      (agree : (Engine.initiator d.stores b base).state sending = .ok agreed) :
      Acts c d (.process peer b) (d.stores.committed peer b.identityKey
        ((d.stores.loadSession peer).promote
          (Engine.started d.stores b base agreed) c.maxArchivedStates))
  | written {peer : Address} {s t : State} {plain : Bytes} {m : Message}
      (current : (d.stores.loadSession peer).current = some s)
      (written : s.encrypt plain = .ok (m, t))
      (trusted : d.stores.isTrusted peer s.remoteIdentity = true) :
      Acts c d (.encrypt peer plain)
        (d.stores.committed peer s.remoteIdentity ⟨some t, (d.stores.loadSession peer).previous⟩)
  | read {now : UInt64} {peer : Address} {m : Message} {x : Engine.Reading}
      {plain : Bytes} {e : Entropy}
      (opened : Engine.opened c d.stores peer m = .ok (x.record, x.used))
      (reads : x.record.Reads c now m.inner d.entropy plain x.position x.before x.after e)
      (trusted : d.stores.isTrusted peer (Engine.presented x.after m) = true) :
      Acts c d (.decrypt now peer m)
        ((d.stores.committed peer (Engine.presented x.after m) (x.stored c)).withoutUsed x.used)

theorem acts_perform (c : Config) (d : Device) (op : Operation) :
    Acts c d op (op.perform c d).stores := by
  cases op with
  | generate deviceId start count now => exact .made deviceId start count now
  | process peer b =>
    rcases hrun : outcome (Engine.processBundle c peer b) d with ⟨fault | _, d'⟩
    · rw [Operation.perform, hrun, Engine.processBundle_error hrun]
      exact .same _
    · obtain ⟨htrusted, -, base, sending, e₁, e₂, agreed, -, -, hagree, rfl⟩ :=
        Engine.processBundle_ok.mp hrun
      rw [Operation.perform, hrun]
      exact .started htrusted hagree
  | encrypt peer plain =>
    rcases hrun : outcome (Engine.encrypt peer plain) d with ⟨fault | m, d'⟩
    · rw [Operation.perform, hrun, Engine.encrypt_error hrun]
      exact .same _
    · obtain ⟨s, after, hcurrent, hwritten, htrusted, rfl⟩ := Engine.encrypt_ok.mp hrun
      rw [Operation.perform, hrun]
      exact .written hcurrent hwritten htrusted
  | decrypt now peer m =>
    rcases hrun : outcome (Engine.decrypt c now peer m) d with ⟨fault | plain, d'⟩
    · rw [Operation.perform, hrun, Engine.decrypt_error hrun]
      exact .same _
    · obtain ⟨x, hopen, hreads, htrusted, hstores⟩ := Engine.decrypt_ok.mp hrun
      rw [Operation.perform, hrun, hstores]
      exact .read hopen hreads htrusted

/-- An operation may pin an identity; the party's own one, and its registration id, stay. -/
theorem identity_perform (c : Config) (d : Device) (op : Operation) :
    ∃ known, (op.perform c d).stores.identity = { d.stores.identity with known } := by
  have hacts := acts_perform c d op
  generalize (op.perform c d).stores = s at hacts ⊢
  cases hacts with
  | same => exact ⟨_, rfl⟩
  | made => exact ⟨d.stores.identity.known, identity_generate ..⟩
  | started => exact ⟨_, rfl⟩
  | written => exact ⟨_, rfl⟩
  | @read now peer m x =>
    refine ⟨(d.stores.committed peer (Engine.presented x.after m) (x.stored c)).identity.known, ?_⟩
    cases x.used <;> rfl

/-- What an operation leaves as the record for a peer. -/
inductive Leaves (c : Config) (peer : Address) (d : Device) : Operation → Record → Prop
  | same (op : Operation) : Leaves c peer d op (d.stores.loadSession peer)
  | started {b : Bundle} {base sending : KeyPair} {agreed : State}
      (agree : (Engine.initiator d.stores b base).state sending = .ok agreed) :
      Leaves c peer d (.process peer b)
        ((d.stores.loadSession peer).promote
          (Engine.started d.stores b base agreed) c.maxArchivedStates)
  | written {s t : State} {plain : Bytes} {m : Message}
      (current : (d.stores.loadSession peer).current = some s)
      (written : s.encrypt plain = .ok (m, t)) :
      Leaves c peer d (.encrypt peer plain) ⟨some t, (d.stores.loadSession peer).previous⟩
  | read {now : UInt64} {m : Message} {x : Engine.Reading} {plain : Bytes} {e : Entropy}
      (opened : Engine.opened c d.stores peer m = .ok (x.record, x.used))
      (reads : x.record.Reads c now m.inner d.entropy plain x.position x.before x.after e) :
      Leaves c peer d (.decrypt now peer m) (x.stored c)

/-- An operation that fails leaves all records alone, and one that succeeds those of other peers. -/
theorem leaves_perform (c : Config) (peer : Address) (d : Device) (op : Operation) :
    Leaves c peer d op ((op.perform c d).stores.loadSession peer) := by
  have hacts := acts_perform c d op
  generalize (op.perform c d).stores = s at hacts ⊢
  cases hacts with
  | same => exact .same op
  | made =>
    rw [loadSession_generate]
    exact .same _
  | @started other b base sending agreed _ agree =>
    rw [Stores.loadSession_committed]
    by_cases hpeer : peer = other
    · subst hpeer
      rw [if_pos rfl]
      exact .started agree
    · rw [if_neg hpeer]
      exact .same _
  | @written other s t plain m current written _ =>
    rw [Stores.loadSession_committed]
    by_cases hpeer : peer = other
    · subst hpeer
      rw [if_pos rfl]
      exact .written current written
    · rw [if_neg hpeer]
      exact .same _
  | @read now other m x plain e opened reads _ =>
    rw [Stores.loadSession_withoutUsed, Stores.loadSession_committed]
    by_cases hpeer : peer = other
    · subst hpeer
      rw [if_pos rfl]
      exact .read opened reads
    · rw [if_neg hpeer]
      exact .same _

/-- One operation turns a state of the record for a peer into another one: it
is kept, or it is the current one and writes, or it reads. -/
inductive Becomes (c : Config) (peer : Address) (d : Device) : Operation → State → State → Prop
  | kept (op : Operation) (s : State) : Becomes c peer d op s s
  | writes {s t : State} {plain : Bytes} {m : Message}
      (current : (d.stores.loadSession peer).current = some s)
      (written : s.encrypt plain = .ok (m, t)) : Becomes c peer d (.encrypt peer plain) s t
  | reads {now : UInt64} {m : Message} {x : Engine.Reading}
      (reading : Engine.reading? c now peer m d = some x) :
      Becomes c peer d (.decrypt now peer m) x.before x.after

/-- An operation sets up a state for a peer, as initiator or as responder. -/
inductive Built (peer : Address) (d : Device) : Operation → State → Prop
  | initiator {b : Bundle} {base sending : KeyPair} {agreed : State}
      (agree : (Engine.initiator d.stores b base).state sending = .ok agreed) :
      Built peer d (.process peer b) (Engine.started d.stores b base agreed)
  | responder {now : UInt64} {m : PreKeyMessage} {own : State}
      (respond : Engine.respond d.stores m = .ok own) :
      Built peer d (.decrypt now peer (.preKey m)) own

/-- Every state that is stored after an operation was stored or set up before it. -/
theorem mem_states_perform {c : Config} {peer : Address} {d : Device} {op : Operation} {t : State}
    (h : t ∈ (op.perform c d).states peer) :
    ∃ s, (s ∈ d.states peer ∨ Built peer d op s) ∧ Becomes c peer d op s t := by
  have hleaves := leaves_perform c peer d op
  unfold Device.states at h
  generalize (op.perform c d).stores.loadSession peer = r at h hleaves
  cases hleaves with
  | same => exact ⟨t, .inl h, .kept op t⟩
  | started agree =>
    rcases Record.mem_states_promote h with rfl | ht
    · exact ⟨_, .inr (.initiator agree), .kept _ _⟩
    · exact ⟨t, .inl ht, .kept _ _⟩
  | written current written =>
    rcases List.mem_cons.mp h with rfl | ht
    · refine ⟨_, .inl ?_, .writes current written⟩
      simp [Device.states, Record.states, current]
    · exact ⟨t, .inl (List.mem_append_right _ ht), .kept _ _⟩
  | @read now m x plain e opened reads =>
    have hsource : ∀ s ∈ x.record.states, s ∈ d.states peer ∨
        Built peer d (.decrypt now peer m) s := by
      intro s hs
      rcases Engine.mem_opened opened hs with hs | ⟨p, rfl, hown⟩
      · exact .inl hs
      · exact .inr (.responder hown)
    rw [Engine.Reading.states_stored] at h
    rcases List.mem_cons.mp h with rfl | ht
    · have hreading := Engine.reading?_eq_some.mpr ⟨opened, plain, e, reads⟩
      exact ⟨x.before, hsource _ (List.mem_of_getElem? reads.place), .reads hreading⟩
    · exact ⟨t, hsource t (Record.mem_states_of_mem_others ht), .kept _ _⟩

/-- The records of all peers are within the bound on their history. -/
def Device.Bounded (c : Config) (d : Device) : Prop :=
  ∀ peer, (d.stores.loadSession peer).Bounded c.maxArchivedStates

/-- A record opened for a message is within the bound. -/
theorem bounded_opened {c : Config} {d : Device} (h : d.Bounded c) {peer : Address} {m : Message}
    {r : Record} {used : Option UInt32} (hopen : Engine.opened c d.stores peer m = .ok (r, used)) :
    r.Bounded c.maxArchivedStates := by
  cases m with
  | ratchet m =>
    cases hopen
    exact h peer
  | preKey m =>
    obtain ⟨-, ⟨-, rfl, -⟩ | ⟨-, own, -, rfl, -⟩⟩ := Engine.prepare_ok.mp hopen
    · exact h peer
    · exact (h peer).promote own

theorem bounded_perform {c : Config} {d : Device} (h : d.Bounded c) (op : Operation) :
    (op.perform c d).Bounded c := by
  intro peer
  have hbefore := h peer
  have hleaves := leaves_perform c peer d op
  generalize (op.perform c d).stores.loadSession peer = r at hleaves ⊢
  cases hleaves with
  | same => exact hbefore
  | started => exact hbefore.promote _
  | written => exact ⟨hbefore.previous, by simp⟩
  | read opened reads => exact (bounded_opened h opened).others _ reads.lt

theorem bounded_run (c : Config) (keyPair : KeyPair) (registrationId : UInt32) (entropy : Entropy)
    (ops : List Operation) : ((Device.new keyPair registrationId entropy).run c ops).Bounded c :=
  Device.run_induction (P := Device.Bounded c) (fun _ op hd => bounded_perform hd op)
    (fun _ => ⟨Nat.zero_le _, fun _ => rfl⟩) ops

/-- A property of states that holds of those set up, and is kept in writing and reading. -/
structure State.Lasting (c : Config) (P : State → Prop) : Prop where
  initiator : ∀ {s : Stores} {b : Bundle} {base sending : KeyPair} {agreed : State},
    (Engine.initiator s b base).state sending = .ok agreed → P (Engine.started s b base agreed)
  responder : ∀ {s : Stores} {m : PreKeyMessage} {own : State}, Engine.respond s m = .ok own → P own
  writes : ∀ {s t : State} {plain : Bytes} {m : Message}, P s → s.encrypt plain = .ok (m, t) → P t
  reads : ∀ {now : UInt64} {s t : State} {m : RatchetMessage} {e e' : Entropy} {plain : Bytes},
    P s → s.Reads c now m e plain t e' → P t

/-- Whatever a state becomes, a lasting property of it stays. -/
theorem State.Lasting.becomes {c : Config} {P : State → Prop} (h : State.Lasting c P)
    {peer : Address} {d : Device} {op : Operation} {s t : State} (hs : P s)
    (hb : Becomes c peer d op s t) : P t := by
  cases hb with
  | kept => exact hs
  | writes _ written => exact h.writes hs written
  | reads reading =>
    obtain ⟨-, plain, e', -, e₁, -, hreads⟩ := Engine.reading?_eq_some.mp reading
    exact h.reads hs hreads

theorem State.Lasting.perform {c : Config} {P : State → Prop} (h : State.Lasting c P) {d : Device}
    (hd : ∀ peer, ∀ s ∈ d.states peer, P s) (op : Operation) :
    ∀ peer, ∀ s ∈ (op.perform c d).states peer, P s := by
  intro peer t ht
  obtain ⟨s, hs | hs, hbecomes⟩ := mem_states_perform ht
  · exact h.becomes (hd peer s hs) hbecomes
  · cases hs with
    | initiator agree => exact h.becomes (h.initiator agree) hbecomes
    | responder respond => exact h.becomes (h.responder respond) hbecomes

/-- A lasting property holds of every state that a new device ever stores. -/
theorem State.Lasting.run {c : Config} {P : State → Prop} (h : State.Lasting c P)
    (keyPair : KeyPair) (registrationId : UInt32) (entropy : Entropy) (ops : List Operation) :
    ∀ peer, ∀ s ∈ ((Device.new keyPair registrationId entropy).run c ops).states peer, P s := by
  refine Device.run_induction (P := fun d => ∀ peer, ∀ s ∈ d.states peer, P s)
    (fun _ op hd => h.perform hd op) ?_ ops
  intro peer s hs
  exact absurd hs List.not_mem_nil

namespace Small

/-- Random bytes that are the same for 32 in a row. -/
def entropy (seed : Nat) : Entropy := { source := fun i => UInt8.ofNat (seed + i / 32) }

/-- A device with an identity of its own. -/
def device (seed : Nat) : Device :=
  .new (@Draw.keyPair suite (entropy seed)).1 (UInt32.ofNat seed)
    (@Draw.keyPair suite (entropy seed)).2

def alice : Address := ⟨"alice", 1⟩

def bob : Address := ⟨"bob", 1⟩

/-- The responder, with two one-time pre-keys. -/
def publisher : Device := @Device.run suite {} (device 101) [.generate 1 1 2 0]

/-- The initiator, from the published bundle. -/
def starter (c : Config) : Device :=
  match PreKeys.currentBundle publisher.stores 1 with
  | .ok published => (outcome (@Engine.establish suite c bob published) (device 1)).2
  | .error _ => device 1

/-- What a device writes, and the device after it. -/
def write (peer : Address) (plain : Bytes) (d : Device) : Except SessionError Message × Device :=
  outcome (@Engine.encrypt suite peer plain) d

/-- The initiator's first message. -/
def greeting (c : Config) : Message :=
  match (write bob [104, 105] (starter c)).1 with
  | .ok m => m
  | .error _ => .ratchet ⟨currentVersion, default, 0, 0, [], []⟩

/-- The responder once it has read the greeting. -/
def acquainted : Device := @Device.run suite {} publisher [.decrypt 0 alice (greeting {})]

end Small

end DoubleRatchet
