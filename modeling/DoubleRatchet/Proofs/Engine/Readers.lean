import DoubleRatchet.Proofs.Engine.Runs

/-!
# Who reads a first message

No tag covers what a first message is wrapped in: its base key, its pre-key
identifiers and its identity key. Any state of the record may read the message
inside, not only the one that the wrapping names. What the wrapping does to the
stores is vouched for exactly when the named state is the reader, and the reader
is trusted exactly when it is of the identity in the wrapping or none is pinned.
-/
namespace DoubleRatchet

/-- A first message names the state that it was wrapped for by version and base key. -/
def PreKeyMessage.Names (m : PreKeyMessage) (s : State) : Prop :=
  s.version = m.version ∧ s.baseKey = m.baseKey

theorem Record.hasState_iff {r : Record} {m : PreKeyMessage} :
    r.hasState m.version m.baseKey = true ↔ ∃ s ∈ r.states, m.Names s := by
  simp [hasState, PreKeyMessage.Names]

namespace Small

/-- The initiator's second message, still a first message for the responder. -/
def second : PreKeyMessage :=
  match (write bob [109] (write bob [104, 105] (starter {})).2).1 with
  | .ok (.preKey m) => m
  | _ => .make 0 0 none 0 default default ⟨0, default, 0, 0, [], []⟩

/-- A key of nobody. -/
def nobody : PublicKey := ⟨.fill 32 9⟩

/-- The second message as the first one of a session that nobody started. -/
def stray : PreKeyMessage :=
  .make second.version second.registrationId
    (some 2) second.signedPreKeyId nobody second.identityKey second.message

/-- The second message as if from nobody. -/
def posing : PreKeyMessage :=
  .make second.version second.registrationId none second.signedPreKeyId second.baseKey
    nobody second.message

/-- The responder, with the initiator's pinned identity replaced. -/
def replaced : Device := { acquainted with stores := acquainted.stores.saveIdentity alice nobody }

end Small

namespace Engine

variable [Suite]

/-- The message inside vouches for the wrapping: the reader is the state that
is named, a pre-key is used up only for the responder's new state as the reader,
and no state but the reader comes into the record. -/
structure Vouched (peer : Address) (m : PreKeyMessage) (x : Reading) (d d' : Device) : Prop where
  named : m.Names x.after
  used : d'.stores.preKeys = d.stores.preKeys ∨ respond d.stores m = .ok x.before
  built : ∀ s ∈ d'.states peer, s ∈ d.states peer ∨ s = x.after

/-- The state in front of a record that was opened for a new base key is the responder's. -/
theorem before_eq_own {c : Config} {r : Record} {own : State} {now : UInt64} {m : RatchetMessage}
    {e e' : Entropy} {plain : Bytes} {before after : State}
    (h : (r.promote own c.maxArchivedStates).Reads c now m e plain 0 before after e') :
    before = own :=
  (Option.some_inj.mp h.place).symm

/-- Every other state of such a record was there before. -/
theorem mem_of_position_ne_zero {c : Config} {r : Record} {own : State} {now : UInt64}
    {m : RatchetMessage} {e e' : Entropy} {plain : Bytes} {position : Nat} {before after : State}
    (h : (r.promote own c.maxArchivedStates).Reads c now m e plain position before after e')
    (hp : position ≠ 0) :
    before ∈ r.states := by
  obtain ⟨index, rfl⟩ := Nat.exists_eq_succ_of_ne_zero hp
  have hplace := h.place
  rw [Record.states_promote, List.getElem?_cons_succ] at hplace
  exact Record.mem_states_of_mem_archived (List.mem_of_getElem? hplace)

section Accepted

variable {c : Config} {now : UInt64} {peer : Address} {m : PreKeyMessage} {d d' : Device}
  {plain : Bytes} {x : Reading} {e' : Entropy}

omit [Suite] in
/-- Beside the reader, what is stored are the other states of the opened record. -/
theorem mem_states_of_stored (hrecord : d'.stores.loadSession peer = x.stored c) {s : State}
    (hs : s ∈ d'.states peer) :
    s = x.after ∨ s ∈ x.record.others c.maxArchivedStates x.position := by
  rw [Device.states, hrecord, Reading.states_stored] at hs
  exact List.mem_cons.mp hs

/-- Reading a message does not change what names a state. -/
theorem names_after_iff
    (hreads : x.record.Reads c now m.message d.entropy plain x.position x.before x.after e') :
    m.Names x.after ↔ m.Names x.before := by
  obtain ⟨e₁, -, hread⟩ := hreads.reads
  rw [PreKeyMessage.Names, PreKeyMessage.Names, hread.sameSession.version,
    hread.sameSession.baseKey]

/-- With a known base key the stores are vouched for if the reader is named. -/
theorem vouched_known_iff (hsame : x.record = d.stores.loadSession peer)
    (hkeys : d'.stores.preKeys = d.stores.preKeys)
    (hrecord : d'.stores.loadSession peer = x.stored c) :
    Vouched peer m x d d' ↔ m.Names x.after := by
  refine ⟨Vouched.named, fun hnamed => ⟨hnamed, .inl hkeys, fun s hs => ?_⟩⟩
  rcases mem_states_of_stored hrecord hs with rfl | hs
  · exact .inr rfl
  · rw [hsame] at hs
    exact .inl (Record.mem_states_of_mem_others hs)

/-- With a new base key they are vouched for if the responder's own state reads. -/
theorem vouched_new_iff {own : State}
    (hnew : (d.stores.loadSession peer).hasState m.version m.baseKey = false)
    (hown : respond d.stores m = .ok own)
    (hpromote : x.record = (d.stores.loadSession peer).promote own c.maxArchivedStates)
    (hreads : x.record.Reads c now m.message d.entropy plain x.position x.before x.after e')
    (hrecord : d'.stores.loadSession peer = x.stored c) :
    Vouched peer m x d d' ↔ x.position = 0 ∧ m.version = currentVersion := by
  have hnames := names_after_iff hreads
  have hstates := fun s hs => mem_states_of_stored (s := s) hrecord hs
  obtain ⟨hownNew, hownBase, -⟩ := respond_new hown
  rw [hpromote] at hreads hstates
  constructor
  · intro hvouched
    have hnamed := hnames.mp hvouched.named
    -- any other state that is named would have made the base key a known one
    have hposition : x.position = 0 := by
      by_contra hne
      have hold := Record.hasState_iff.mpr ⟨x.before, mem_of_position_ne_zero hreads hne, hnamed⟩
      rw [hnew] at hold
      cases hold
    rw [hposition] at hreads
    rw [before_eq_own hreads] at hnamed
    exact ⟨hposition, hnamed.1.symm.trans hownNew.version⟩
  · rintro ⟨hposition, hversion⟩
    rw [hposition] at hreads hstates
    have hbefore := before_eq_own hreads
    refine ⟨hnames.mpr ?_, .inr (hbefore ▸ hown), fun s hs => ?_⟩
    · rw [hbefore]
      exact ⟨hownNew.version.trans hversion.symm, hownBase⟩
    · rcases hstates s hs with rfl | hs
      · exact .inr rfl
      · exact .inl (Record.mem_states_of_mem_archived hs)

end Accepted

/-- A first message that is accepted is vouched for exactly when, its base key
being known, the reader is a state that it names, and, its base key being new,
the responder's own state, which is tried first, reads it. -/
theorem vouched_iff {c : Config} {now : UInt64} {peer : Address} {m : PreKeyMessage} {d d' : Device}
    {plain : Bytes} (h : outcome (decryptPreKey c now peer m) d = (.ok plain, d')) :
    ∃ x, reading? c now peer (.preKey m) d = some x ∧
      (d'.stores.loadSession peer).current = some x.after ∧
      (Vouched peer m x d d' ↔
        if (d.stores.loadSession peer).hasState m.version m.baseKey then m.Names x.before
        else x.position = 0 ∧ m.version = currentVersion) := by
  have haccepted : outcome (decrypt c now peer (.preKey m)) d = (.ok plain, d') := h
  obtain ⟨x, hopen, hreads, -, hstores⟩ := decrypt_ok.mp haccepted
  have hrecord : d'.stores.loadSession peer = x.stored c := by
    rw [hstores, Stores.loadSession_withoutUsed, Stores.loadSession_committed_self]
  refine ⟨x, reading?_eq_some.mpr ⟨hopen, plain, _, hreads⟩, by rw [hrecord]; rfl, ?_⟩
  obtain ⟨-, ⟨hknown, hsame, hused⟩ | ⟨hnew, own, hown, hpromote, -⟩⟩ := prepare_ok.mp hopen
  · have hkeys : d'.stores.preKeys = d.stores.preKeys := by
      rw [hstores, hused]
      rfl
    rw [if_pos hknown, ← names_after_iff hreads]
    exact vouched_known_iff hsame hkeys hrecord
  · rw [if_neg (by simp [hnew])]
    exact vouched_new_iff hnew hown hpromote hreads hrecord

omit [Suite] in
/-- Under a base key of nobody a message is read by the session that it is from, and
is not vouched for. -/
theorem vouched_iff_rewrapped :
    ∃ d' x, outcome (@decryptPreKey Small.suite {} 0 Small.alice Small.stray)
        Small.acquainted = (.ok [109], d') ∧
      @reading? Small.suite {} 0 Small.alice (.preKey Small.stray)
        Small.acquainted = some x ∧
      ¬@Vouched Small.suite Small.alice Small.stray x Small.acquainted d' := by
  let := Small.suite
  have hok : (outcome (decryptPreKey {} 0 Small.alice Small.stray)
      Small.acquainted).1 = .ok [109] := by decide +kernel
  have hnew : (Small.acquainted.stores.loadSession Small.alice).hasState
      Small.stray.version
      Small.stray.baseKey = false := by decide +kernel
  have hposition : (reading? {} 0 Small.alice (.preKey Small.stray)
      Small.acquainted).map Reading.position = some 1 := by decide +kernel
  obtain ⟨d', hd⟩ := outcome_of_result hok
  obtain ⟨x, hx, -, hiff⟩ := vouched_iff hd
  rw [hx, Option.map_some, Option.some_inj] at hposition
  refine ⟨d', x, hd, hx, fun hvouched => ?_⟩
  rw [hiff, if_neg (by simp [hnew]), hposition] at hvouched
  exact absurd hvouched.1 (by decide)

/-- What a first message does that is read by another state than the one set up
for it: its one-time pre-key is gone, and the unproven state is archived. -/
theorem unvouched_effect {c : Config} {now : UInt64} {peer : Address} {m : PreKeyMessage}
    {d d' : Device} {plain : Bytes} {x : Reading}
    (h : outcome (decryptPreKey c now peer m) d = (.ok plain, d'))
    (hx : reading? c now peer (.preKey m) d = some x)
    (hnew : (d.stores.loadSession peer).hasState m.version m.baseKey = false) (hp : x.position ≠ 0)
    (hbound : 0 < c.maxArchivedStates) :
    ∃ own, respond d.stores m = .ok own ∧ own ∈ (d'.stores.loadSession peer).previous ∧
      ∀ id, m.preKeyId = some id → d'.stores.preKeys.get? id = none := by
  have haccepted : outcome (decrypt c now peer (.preKey m)) d = (.ok plain, d') := h
  obtain ⟨y, hopen, hreads, -, hstores⟩ := decrypt_ok.mp haccepted
  obtain rfl : x = y :=
    Option.some_inj.mp (hx.symm.trans (reading?_eq_some.mpr ⟨hopen, plain, _, hreads⟩))
  obtain ⟨-, ⟨hknown, -⟩ | ⟨-, own, hown, hpromote, hused⟩⟩ := prepare_ok.mp hopen
  · rw [hnew] at hknown
    cases hknown
  · obtain ⟨index, hindex⟩ := Nat.exists_eq_succ_of_ne_zero hp
    refine ⟨own, hown, ?_, fun id hid => ?_⟩
    · rw [hstores, Stores.loadSession_withoutUsed, Stores.loadSession_committed_self]
      change own ∈ x.record.others c.maxArchivedStates x.position
      rw [hpromote, hindex]
      obtain ⟨bound, hbound⟩ := Nat.exists_eq_succ_of_ne_zero (Nat.ne_of_gt hbound)
      rw [hbound]
      exact List.mem_cons_self
    · rw [hstores, hused, hid]
      simp [Stores.withoutUsed, Stores.removePreKey, Table.get?_erase]

/-- Whoever reads a message is trusted, except that the identity in a wrapping
may stand in for the reader's own: then it is trusted only if nothing is pinned. -/
theorem reader_trusted_iff {c : Config} {now : UInt64} {peer : Address} {m : Message}
    {d d' : Device} {plain : Bytes} (h : outcome (decrypt c now peer m) d = (.ok plain, d')) :
    ∃ x, reading? c now peer m d = some x ∧ (d'.stores.loadSession peer).current = some x.after ∧
      (d.stores.isTrusted peer x.before.remoteIdentity = true ↔
        match m with
        | .ratchet _ => True
        | .preKey p => d.stores.identity.known.get? peer = none ∨
            x.before.remoteIdentity = p.identityKey) := by
  obtain ⟨x, hopen, hreads, htrusted, hstores⟩ := decrypt_ok.mp h
  obtain ⟨e₁, -, hread⟩ := hreads.reads
  refine ⟨x, reading?_eq_some.mpr ⟨hopen, plain, _, hreads⟩, ?_, ?_⟩
  · rw [hstores, Stores.loadSession_withoutUsed, Stores.loadSession_committed_self]
    rfl
  · cases m with
    | ratchet m =>
      rw [presented, hread.sameSession.remoteIdentity] at htrusted
      exact iff_of_true htrusted trivial
    | preKey p =>
      simp only [presented, Stores.isTrusted] at htrusted ⊢
      cases hpinned : d.stores.identity.known.get? peer with
      | none => simp
      | some pinned =>
        simp only [hpinned] at htrusted
        obtain rfl := of_decide_eq_true htrusted
        simp [eq_comm]

omit [Suite] in
/-- Under the identity that is pinned now, a message is read by a session with the one
that was pinned before. -/
theorem reader_trusted_iff_posing :
    ∃ d' x, outcome (@decrypt Small.suite {} 0 Small.alice (.preKey Small.posing)) Small.replaced =
        (.ok [109], d') ∧
      @reading? Small.suite {} 0 Small.alice (.preKey Small.posing) Small.replaced = some x ∧
      Small.replaced.stores.isTrusted Small.alice x.before.remoteIdentity = false := by
  let := Small.suite
  have hok :
      (outcome (decrypt {} 0 Small.alice (.preKey Small.posing)) Small.replaced).1 = .ok [109] := by
    decide +kernel
  have hpinned : Small.replaced.stores.identity.known.get? Small.alice = some Small.nobody := by
    decide +kernel
  have hreader : (reading? {} 0 Small.alice (.preKey Small.posing) Small.replaced).map
      (·.before.remoteIdentity) =
      some (Small.device 1).stores.identity.keyPair.publicKey := by decide +kernel
  have hother : (Small.device 1).stores.identity.keyPair.publicKey ≠ Small.posing.identityKey := by
    decide +kernel
  obtain ⟨d', hd⟩ := outcome_of_result hok
  obtain ⟨x, hx, -, hiff⟩ := reader_trusted_iff hd
  rw [hx, Option.map_some, Option.some_inj] at hreader
  refine ⟨d', x, hd, hx, Bool.eq_false_iff.mpr fun htrusted => ?_⟩
  rcases hiff.mp htrusted with hnone | hsame
  · rw [hpinned] at hnone
    cases hnone
  · exact hother (hreader ▸ hsame)

end Engine

end DoubleRatchet
