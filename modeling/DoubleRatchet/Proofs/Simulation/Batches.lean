import DoubleRatchet.Proofs.Conversation.Batches
import DoubleRatchet.Proofs.Conversation.Steps
import DoubleRatchet.Proofs.Engine.Draws
import DoubleRatchet.Proofs.Session.Written
import DoubleRatchet.Simulation
import Mathlib.Data.List.Perm.Basic
import Mathlib.Data.Nat.Digits.Defs

/-!
# Batches that arrive

The messages of a batch fit in frames, and their order on the stream is one of
their permutations. What one party writes in its turn the other one reads, and
then a replay is a duplicate.
-/
namespace DoubleRatchet

theorem length_utf8 (s : String) : (utf8 s).length = s.utf8ByteSize := by
  rw [utf8, toList_byteArray]
  rfl

theorem utf8ByteSize_le (s : String) : s.utf8ByteSize ≤ 4 * s.length := by
  induction s using String.push_induction with
  | empty => exact Nat.zero_le _
  | push s c ih =>
    have hsize := c.utf8Size_le_four
    rw [String.utf8ByteSize_push, String.length_push]
    omega

namespace Simulation

/-- Items that come in another order after a map are the map of the items in that order. -/
theorem exists_perm_of_map {α β : Type} (f : α → β) {items : List α} {mapped : List β}
    (h : mapped.Perm (items.map f)) :
    ∃ ordered : List α, ordered.Perm items ∧ mapped = ordered.map f := by
  have hmap : List.Forall₂ (fun b a => b = f a) (items.map f) items :=
    List.forall₂_map_left_iff.mpr (List.forall₂_same.mpr fun _ _ => rfl)
  obtain ⟨ordered, hordered, hperm⟩ := List.perm_comp_forall₂ h hmap
  refine ⟨ordered, hperm, ?_⟩
  rwa [← List.forall₂_eq_eq_eq, List.forall₂_map_right_iff]

variable [Suite]

/-- A party has stored one state for its peer, on whose identity both agree. -/
structure Party.Holds (t : Terms) (side : Side) (p : Party) (peer : Address)
    (s : State) : Prop where
  record : p.stores.loadSession peer = ⟨some s, []⟩
  trusted : p.stores.isTrusted peer (t.identity side.other) = true
  abides : s.Abides t side

section Party

variable {α : Type} {t : Terms} {side : Side} {p : Party} {peer : Address} {s : State}

omit [Suite] in
theorem act_eq (x : Action SessionError α) (p : Party) (e : Entropy) :
    p.act x e =
      (((outcome x ⟨p.stores, e⟩).1, { p with stores := (outcome x ⟨p.stores, e⟩).2.stores }),
      (outcome x ⟨p.stores, e⟩).2.entropy) := rfl

omit [Suite] in
theorem outcome_must {x : Action SessionError α} {p : Party} {e : Entropy} {a : α} {d : Device}
    (h : outcome x ⟨p.stores, e⟩ = (.ok a, d)) :
    outcome (p.must x) e = (.ok (a, { p with stores := d.stores }), d.entropy) := by
  unfold Party.must
  rw [outcome_bind, outcome_liftM, act_eq, h]
  rfl

/-- A party that holds a state encrypts with it. -/
theorem Party.Holds.encrypt (h : p.Holds t side peer s) {plain : Bytes} {m : Message}
    {after : State} (hm : s.encrypt plain = .ok (m, after)) (e : Entropy) :
    ∃ p', outcome (p.must (Engine.encrypt peer plain)) e = (.ok (m, p'), e) ∧ p'.name = p.name ∧
      p'.Holds t side peer after := by
  have htrusted := h.trusted
  rw [← h.abides.remoteIdentity] at htrusted
  have hcurrent : (p.stores.loadSession peer).current = some s := by rw [h.record]
  have hencrypt :=
    (Engine.encrypt_ok (d := ⟨p.stores, e⟩)).mpr ⟨s, after, hcurrent, hm, htrusted, rfl⟩
  refine ⟨_, outcome_must (d := ⟨_, e⟩) hencrypt, rfl, ?_, ?_, ?_⟩
  · rw [Stores.loadSession_committed_self, h.record]
  · rw [h.abides.remoteIdentity]
    exact Stores.isTrusted_committed_self _ _ _ _
  · obtain ⟨-, -, hafter⟩ := State.encrypt_ok.mp hm
    exact h.abides.congr (State.sameSession_encrypt hm) (.inr (by rw [hafter]; rfl))

end Party

/-- A message of a batch, with its number and the text in it. -/
structure Letter where
  number : Nat
  text : String
  message : Message

/-- A letter as it travels. -/
def Letter.written (l : Letter) : String × Bytes :=
  (l.text, Envelope.frame l.message.kind.number l.message.serialized)

/-- A letter was written on a rung in its turn, and comes off the stream again. -/
structure Letter.Sent (t : Terms) (side : Side) (x : Rung) (l : Letter) : Prop where
  on : l.message.inner.On x l.number (t.identity side) (t.identity side.other) (utf8 l.text)
  wrapped : ∀ p, l.message = .preKey p → side = .initiator ∧ p.Under t
  framed : ∀ rest, Envelope.next (l.written.2 ++ rest) = (.ok (some l.message), rest)

/-- The letters of a batch have the numbers below a count, each one once. -/
structure Batch (t : Terms) (side : Side) (x : Rung) (n : Nat) (letters : List Letter) : Prop where
  sent : ∀ l ∈ letters, l.Sent t side x
  numbers : (letters.map Letter.number).Perm (List.range n)

section Batch

variable {t : Terms} {side : Side} {x : Rung} {n : Nat} {letters : List Letter}

theorem Batch.number_lt (h : Batch t side x n letters) : ∀ l ∈ letters, l.number < n :=
  fun _ hl => List.mem_range.mp (h.numbers.mem_iff.mp (List.mem_map_of_mem hl))

theorem Batch.mem_numbers (h : Batch t side x n letters) {i : Nat} (hi : i < n) :
    i ∈ letters.map Letter.number :=
  h.numbers.mem_iff.mpr (List.mem_range.mpr hi)

theorem Batch.exists_cons (h : Batch t side x n letters) (hn : 0 < n) :
    ∃ l rest, letters = l :: rest := by
  cases letters with
  | nil => exact absurd (h.mem_numbers hn) List.not_mem_nil
  | cons l rest => exact ⟨l, rest, rfl⟩

end Batch

omit [Suite] in
/-- The number of a message takes ten characters at most. -/
theorem utf8ByteSize_repr_le {n : Nat} (h : n < UInt32.size) : n.repr.utf8ByteSize ≤ 40 := by
  have hlength : n.repr.length ≤ 10 := Nat.repr_length n 10 (by decide) (Nat.lt_trans h (by decide))
  have hsize := utf8ByteSize_le n.repr
  omega

section Writing

variable {t : Terms} {side : Side} {peer : Address} {rungs : List Rung} {n : Nat} {x : Rung}

/-- What a state writes in its turn is a letter on its rung. -/
theorem sent_wrapped [Suite.Lawful] (hl : Ladder rungs) (hx : rungs[n]? = some x) {s after : State}
    (hs : s.Stands rungs n) (habides : s.Abides t side) {text : String}
    (htext : text.utf8ByteSize ≤ 60000) {m : Message} (hm : s.encrypt (utf8 text) = .ok (m, after))
    {i : Nat} (hi : s.sender.chain.index.toNat = i) :
    m.serialized.length < Envelope.limit ∧ Letter.Sent t side x ⟨i, text, m⟩ := by
  obtain ⟨-, rfl, -⟩ := State.encrypt_ok.mp hm
  obtain ⟨-, -, y, hy, hon⟩ := hs.writes hl hm
  obtain rfl := Option.some_inj.mp (hx.symm.trans hy)
  rw [habides.localIdentity, habides.remoteIdentity, hi] at hon
  have hlength : (s.wrapped (utf8 text)).serialized.length < Envelope.limit := by
    refine Nat.lt_of_le_of_lt (s.length_wrapped_le (utf8 text)) ?_
    rw [length_utf8, Envelope.limit]
    omega
  refine ⟨hlength, hon, fun p hp => habides.wrapped hs.version hp, fun rest => ?_⟩
  have hgenuine := State.genuine_wrapped hs.version (utf8 text)
  rw [Letter.written, Envelope.next_frame _ hlength,
    hgenuine.parse_serialized (Nat.lt_trans hlength (by decide))]
  rfl

/-- In its turn a party writes as many letters as it is to, and draws nothing for them. -/
theorem writeBatch_ok [Suite.Lawful] (hl : Ladder rungs) (hx : rungs[n]? = some x) {round : Nat}
    (hround : round < UInt32.size) {count i : Nat} (hcount : i + count < UInt32.size) {p : Party}
    {s : State} (hname : p.name.utf8ByteSize ≤ 16) (hp : p.Holds t side peer s)
    (hs : s.Stands rungs n) (hi : s.sender.chain.index.toNat = i) (e : Entropy) :
    ∃ (letters : List Letter) (p' : Party) (s' : State),
      outcome (writeBatch round peer count i p) e = (.ok (letters.map Letter.written, p'), e) ∧
      letters.map Letter.number = List.range' i count ∧ (∀ l ∈ letters, l.Sent t side x) ∧
      (s.pending.isSome = true → ∀ l ∈ letters, ∃ m, l.message = .preKey m) ∧ p'.name = p.name ∧
      p'.Holds t side peer s' ∧ s'.Stands rungs n ∧ s'.skipped = s.skipped := by
  induction count generalizing i p s with
  | zero => exact ⟨[], p, s, rfl, rfl, nofun, nofun, rfl, hp, hs, rfl⟩
  | succ count ih =>
    have hend : s.sender.chain.index.toNat ≠ UInt32.size - 1 := by omega
    -- a frame has a limit, and the text is far below it as its numbers have 32 bits
    let text := s!"{p.name} round {round} #{i}"
    have htext : text.utf8ByteSize ≤ 60000 := by
      have hround := utf8ByteSize_repr_le hround
      have hi := utf8ByteSize_repr_le (show i < UInt32.size by omega)
      have hsize : text.utf8ByteSize = p.name.utf8ByteSize + 7 + round.repr.utf8ByteSize + 2 +
          i.repr.utf8ByteSize := by
        simp only [text, toString, String.utf8ByteSize_append]
        rfl
      omega
    have hm : s.encrypt (utf8 text) =
        .ok (s.wrapped (utf8 text), s.setSenderChain s.sender.chain.next) :=
      State.encrypt_ok.mpr ⟨hend, rfl, rfl⟩
    obtain ⟨hlength, hsent⟩ := sent_wrapped hl hx hs hp.abides htext hm hi
    obtain ⟨hstands, hindex, -⟩ := hs.writes hl hm
    obtain ⟨p₁, hfirst, hname₁, hp₁⟩ := hp.encrypt hm e
    obtain ⟨letters, p', s', hrest, hnumbers, hletters, hwrapped, hname', hp', hs', hskipped⟩ :=
      ih (i := i + 1) (by omega) (by rw [hname₁]; exact hname) hp₁ hstands (by rw [hindex, hi])
    refine ⟨⟨i, text, s.wrapped (utf8 text)⟩ :: letters, p', s', ?_, ?_, ?_, ?_,
      hname'.trans hname₁, hp', hs', hskipped⟩
    · have hencode : outcome (ofWire (Envelope.encode (s.wrapped (utf8 text)))) e =
          (.ok (Envelope.frame (s.wrapped (utf8 text)).kind.number
            (s.wrapped (utf8 text)).serialized), e) := by
        rw [ofWire, Envelope.encode_ok.mpr ⟨hlength, rfl⟩]
        rfl
      rw [writeBatch, outcome_bind_of_ok hfirst, outcome_bind_of_ok hencode,
        outcome_bind_of_ok hrest]
      rfl
    · rw [List.map_cons, hnumbers, List.range'_succ]
    · exact List.forall_mem_cons.mpr ⟨hsent, hletters⟩
    · intro hpending
      refine List.forall_mem_cons.mpr ⟨?_, hwrapped hpending⟩
      obtain ⟨pending, hpending⟩ := Option.isSome_iff_exists.mp hpending
      simp only [State.wrapped, hpending]
      exact ⟨_, rfl⟩

end Writing

omit [Suite] in
/-- Every number comes in time, after those in `got` and those in front of it. -/
def Timely (c : Config) : (got : List Nat) → List Nat → Prop
  | _, [] => True
  | got, i :: rest => InTime c got i ∧ Timely c (i :: got) rest

section Reading

variable {t : Terms} {side : Side} {peer : Address} {rungs : List Rung} {k n : Nat} {x : Rung}
  {c : Config} {now : UInt64} {q : Party} {s : State}

theorem readBatch_cons {w : Option String} {wanted : List (Option String)} {stream rest : Bytes}
    {m : Message} {q' : Party} {result : Except SessionError Bytes} {e e' : Entropy}
    (hnext : Envelope.next stream = (.ok (some m), rest))
    (hact : q.act (Engine.decrypt c now peer m) e = ((result, q'), e')) (report : Report) :
    outcome (readBatch c now peer (w :: wanted) stream q report) e =
      outcome (readBatch c now peer wanted rest q' (report.deliver w result)) e' := by
  have hfirst : outcome (ofWire (.ok (some m))) e = (.ok (some m), e) := rfl
  rw [readBatch, hnext, outcome_bind_of_ok hfirst]
  simp only
  rw [outcome_bind, outcome_liftM, hact]

/-- A party that holds a state opens the letters of its peer with it. -/
theorem Party.Holds.opened (h : q.Holds t side peer s) (version : s.version = currentVersion)
    {m : Message} (hwrapped : ∀ p, m = .preKey p → side.other = .initiator ∧ p.Under t) :
    Engine.opened c q.stores peer m = .ok (⟨some s, []⟩, none) := by
  cases m with
  | ratchet m => rw [Engine.opened, h.record]
  | preKey p =>
    obtain ⟨hside, hunder⟩ := hwrapped p rfl
    have htrusted := h.trusted
    rw [hside, ← hunder.identityKey] at htrusted
    refine Engine.prepare_ok.mpr ⟨htrusted, .inl ⟨?_, h.record.symm, rfl⟩⟩
    have hbase := h.abides.baseKey.trans hunder.baseKey.symm
    simp [Record.hasState, Record.states, h.record, version.trans hunder.version.symm, hbase]

/-- What a state reads its party reads, and holds the state that comes of it. -/
theorem Party.reads {m : Message} {used : Option UInt32} {plain : Bytes} {after : State}
    {e e' : Entropy} (hopen : Engine.opened c q.stores peer m = .ok (⟨some s, []⟩, used))
    (htrusted : q.stores.isTrusted peer (t.identity side.other) = true) (habides : s.Abides t side)
    (hwrapped : ∀ p, m = .preKey p → side.other = .initiator ∧ p.Under t)
    (hread : s.Reads c now m.inner e plain after e') :
    ∃ q', q.act (Engine.decrypt c now peer m) e = ((.ok plain, q'), e') ∧ q'.name = q.name ∧
      q'.Holds t side peer after := by
  have hafter : after.Abides t side := habides.congr hread.sameSession (.inl hread.pending)
  have hpresented : Engine.presented after m = t.identity side.other := hafter.presented_eq hwrapped
  let stores := (q.stores.committed peer (t.identity side.other) ⟨some after, []⟩).withoutUsed used
  have hdecrypt :
      outcome (Engine.decrypt c now peer m) ⟨q.stores, e⟩ = (.ok plain, ⟨stores, e'⟩) := by
    refine Engine.decrypt_ok.mpr ⟨⟨⟨some s, []⟩, used, 0, s, after⟩, hopen,
      Record.reads_single.mpr ⟨rfl, rfl, hread⟩, ?_, ?_⟩
    · rw [hpresented]
      exact htrusted
    · rw [hpresented]
      rfl
  refine ⟨{ q with stores }, by rw [act_eq, hdecrypt], rfl, ?_, ?_, hafter⟩
  · rw [Stores.loadSession_withoutUsed, Stores.loadSession_committed_self]
  · rw [Stores.isTrusted_withoutUsed, Stores.isTrusted_committed_self]

/-- What was sent is for the state that keeps to the same terms on the other side. -/
theorem Letter.Sent.addressed {l : Letter} (h : l.Sent t side.other x) (hs : s.Abides t side) :
    l.message.inner.On x l.number s.remoteIdentity s.localIdentity (utf8 l.text) := by
  have hon := h.on
  rwa [side.other_other, ← hs.remoteIdentity, ← hs.localIdentity] at hon

omit [Suite] in
theorem Report.deliver_own (r : Report) (text : String) :
    r.deliver (some text) (.ok (utf8 text)) = { r with decrypted := r.decrypted + 1 } := if_pos rfl

/-- The letters after the first one are read without anything being drawn. -/
theorem readBatch_letters (hage : c.skippedKeyMaxAge = none)
    (hcache : c.maxForwardJump.toNat ≤ c.maxSkippedKeys) {letters : List Letter}
    (hletters : ∀ l ∈ letters, l.Sent t side.other x ∧ l.number < n) {got : List Nat}
    (hnew : (letters.map Letter.number ++ got).Nodup)
    (htimely : Timely c got (letters.map Letter.number)) (hq : q.Holds t side peer s)
    (hs : Listening rungs k x n got s) (now : UInt64) (e : Entropy) (wanted : List (Option String))
    (rest : Bytes) (report : Report) :
    ∃ q' s', outcome (readBatch c now peer (letters.map (some ·.text) ++ wanted)
        (letters.flatMap (·.written.2) ++ rest) q report) e =
      outcome (readBatch c now peer wanted rest q'
        { report with decrypted := report.decrypted + letters.length }) e ∧
      q'.name = q.name ∧ q'.Holds t side peer s' ∧
      Listening rungs k x n ((letters.map Letter.number).reverse ++ got) s' := by
  -- on the letters that are still to come, while `got` grows
  induction letters generalizing got q s report with
  | nil => exact ⟨q, s, rfl, rfl, hq, hs⟩
  | cons l letters ih =>
    obtain ⟨⟨hsent, hlt⟩, hletters⟩ := List.forall_mem_cons.mp hletters
    obtain ⟨htime, htimely⟩ := htimely
    rw [List.map_cons, List.cons_append, List.nodup_cons] at hnew
    have hnot : l.number ∉ got := fun hgot => hnew.1 (List.mem_append_right _ hgot)
    obtain ⟨after, hread, hs₁⟩ :=
      hs.next hage hcache (hsent.addressed hq.abides) hlt hnot htime now e
    obtain ⟨q₁, hact, hname₁, hq₁⟩ :=
      Party.reads (hq.opened hs.stands.version hsent.wrapped) hq.trusted hq.abides
        hsent.wrapped hread
    have hnew₁ : (letters.map Letter.number ++ l.number :: got).Nodup := by
      rw [List.nodup_middle, List.nodup_cons]
      exact hnew
    obtain ⟨q', s', hrest, hname, hq', hs'⟩ :=
      ih hletters hnew₁ htimely hq₁ hs₁ { report with decrypted := report.decrypted + 1 }
    refine ⟨q', s', ?_, hname.trans hname₁, hq', ?_⟩
    · have hstream : (l :: letters).flatMap (·.written.2) ++ rest =
          l.written.2 ++ (letters.flatMap (·.written.2) ++ rest) := by
        rw [List.flatMap_cons, List.append_assoc]
      rw [List.map_cons, List.cons_append, hstream, readBatch_cons (hsent.framed _) hact,
        Report.deliver_own, hrest, List.length_cons, Nat.add_assoc, Nat.add_comm 1]
    · rwa [List.map_cons, List.reverse_cons, List.append_assoc]

/-- A letter that was read is a duplicate when it comes again. -/
theorem readBatch_again {got : List Nat} (hq : q.Holds t side peer s)
    (hs : Listening rungs k x n got s) {l : Letter} (hsent : l.Sent t side.other x)
    (hgot : l.number ∈ got) (now : UInt64) (e : Entropy) (wanted : List (Option String))
    (rest : Bytes) (report : Report) :
    outcome (readBatch c now peer (none :: wanted) (l.written.2 ++ rest) q report) e =
      outcome (readBatch c now peer wanted rest q
        { report with replaysRejected := report.replaysRejected + 1 }) e := by
  have hspent : s.Spent l.message.inner.ratchetKey l.message.inner.counter := by
    have hcounter : UInt32.ofNat l.number = l.message.inner.counter := by
      rw [← hsent.on.counter, UInt32.ofNat_toNat]
    rw [hsent.on.key, ← hcounter]
    exact hs.follows.spent _ hgot
  obtain ⟨index, hrefused⟩ : ∃ index, outcome (Engine.decrypt c now peer l.message) ⟨q.stores, e⟩ =
      (.error (.message (.duplicate index l.message.inner.counter)), ⟨q.stores, e⟩) :=
    Engine.decrypt_spent (hq.opened hs.stands.version hsent.wrapped) rfl hspent
      (hsent.on.version.trans hs.stands.version.symm)
  have hact : q.act (Engine.decrypt c now peer l.message) e =
      ((.error (.message (.duplicate index l.message.inner.counter)), q), e) := by
    rw [act_eq, hrefused]
  rw [readBatch_cons (hsent.framed rest) hact]
  rfl

/-- All that reading a batch draws is key pairs. -/
theorem drawing_readBatch (c : Config) (now : UInt64) (peer : Address)
    (wanted : List (Option String)) (stream : Bytes) (q : Party) (report : Report) :
    Drawing (readBatch c now peer wanted stream q report) := by
  induction wanted generalizing stream q report with
  | nil => exact .of_keeps fun _ => rfl
  | cons w wanted ih =>
    rw [readBatch]
    refine .bind (.of_keeps fun _ => rfl) fun first => ?_
    cases first with
    | none => exact .of_keeps fun _ => rfl
    | some m =>
      refine .bind (fun e => ?_) fun (result, q') => ih _ q' _
      exact Engine.draws_decrypt c now peer m ⟨q.stores, e⟩

/-- The first letter may come again at the end. -/
theorem deliver_cons (o : Options) (l : Letter) (letters : List Letter) (report : Report) :
    deliver o c now peer ((l :: letters).map Letter.written) q report =
      readBatch c now peer
        (some l.text :: (letters.map (some ·.text) ++ if o.replay then [none] else []))
        (l.written.2 ++ (letters.flatMap (·.written.2) ++ if o.replay then l.written.2 else [])) q
        { report with sent := report.sent + (letters.length + 1) } := by
  have htexts :
      (letters.map Letter.written).map (fun b => some b.1) = letters.map (some ·.text) := by
    rw [List.map_map]
    rfl
  unfold deliver
  cases o.replay <;> simp [htexts, List.flatMap_map, Letter.written]

end Reading

omit [Suite] in
/-- The numbers of a batch come in time in any order, if none is too far up the chain. -/
theorem timely_of_le {c : Config} {numbers : List Nat}
    (h : ∀ i ∈ numbers, i ≤ c.maxForwardJump.toNat) (got : List Nat) : Timely c got numbers := by
  induction numbers generalizing got with
  | nil => exact trivial
  | cons i numbers ih =>
    obtain ⟨hi, hnumbers⟩ := List.forall_mem_cons.mp h
    exact ⟨.inl hi, ih hnumbers _⟩

omit [Suite] in
/-- They come in time in their own order, whatever their count. -/
theorem timely_range' (c : Config) (count : Nat) {i : Nat} {got : List Nat}
    (h : i = 0 ∨ i - 1 ∈ got) :
    Timely c got (List.range' i count) := by
  induction count generalizing i got with
  | zero => exact trivial
  | succ count ih =>
    refine ⟨?_, ih (.inr List.mem_cons_self)⟩
    rcases h with rfl | hbefore
    · exact .inl (Nat.zero_le _)
    · exact .inr hbefore

/-- A party opens with one state whatever its peer may write, be it first messages only. -/
structure Party.Awaits (t : Terms) (c : Config) (side : Side) (q : Party) (peer : Address)
    (pending : Bool) (s : State) : Prop where
  opens : ∀ m : Message, (∀ p, m = .preKey p → side.other = .initiator ∧ p.Under t) →
    (pending = true → ∃ p, m = .preKey p) →
    ∃ used, Engine.opened c q.stores peer m = .ok (⟨some s, []⟩, used)
  trusted : q.stores.isTrusted peer (t.identity side.other) = true
  abides : s.Abides t side

theorem Party.Holds.awaits {t : Terms} {side : Side} {q : Party} {peer : Address} {s : State}
    (h : q.Holds t side peer s) (version : s.version = currentVersion) (c : Config)
    (pending : Bool) :
    q.Awaits t c side peer pending s :=
  ⟨fun _ hwrapped _ => ⟨none, h.opened version hwrapped⟩, h.trusted, h.abides⟩

/-- What a report has of a number of batches that arrived as they should. -/
def Report.clean (r : Report) (o : Options) (batches : Nat) : Report :=
  { r with
    sent := r.sent + batches * o.messagesPerRound
    decrypted := r.decrypted + batches * o.messagesPerRound
    replaysRejected :=
      r.replaysRejected + if o.replay = true ∧ 0 < o.messagesPerRound then batches else 0 }

/-- Two parties between two batches: it is the turn of the first one. -/
structure Facing (t : Terms) (c : Config) (side : Side) (rungs : List Rung) (k : Nat) (p q : Party)
    (s r : State) : Prop where
  turn : Turn rungs k s r
  speaks : p.Holds t side q.address s
  listens : q.Awaits t c side.other p.address s.pending.isSome r
  short : p.name.utf8ByteSize ≤ 16 ∧ q.name.utf8ByteSize ≤ 16

/-- What the options and the bounds have to be for a batch to arrive. -/
structure Options.Fit (o : Options) (c : Config) : Prop where
  ageless : c.skippedKeyMaxAge = none
  cache : c.maxForwardJump.toNat ≤ c.maxSkippedKeys
  count : o.messagesPerRound < UInt32.size
  near : o.shuffle = true → o.messagesPerRound ≤ c.maxForwardJump.toNat + 1

section Exchange

variable {t : Terms} {side : Side} {rungs : List Rung} {k : Nat} {x : Rung} {o : Options}
  {c : Config} {now : UInt64} {round : Nat} {p q : Party} {s r : State}

/-- A batch goes out in an order in which every message comes in time, whatever the order is. -/
theorem dispatch_ok [Suite.Lawful] [Shuffler] (ho : o.Fit c) (hround : round < UInt32.size)
    (h : Facing t c side rungs k p q s r) (hx : rungs[k + 1]? = some x) (e : Entropy) :
    ∃ (letters : List Letter) (p' : Party) (s' : State) (e' : Entropy),
      outcome (dispatch o round p q.address) e = (.ok (letters.map Letter.written, p'), e') ∧
      Batch t side x o.messagesPerRound letters ∧ Timely c [] (letters.map Letter.number) ∧
      (s.pending.isSome = true → ∀ l ∈ letters, ∃ m, l.message = .preKey m) ∧ p'.name = p.name ∧
      p'.Holds t side q.address s' ∧ s'.Stands rungs (k + 1) ∧ s'.skipped = s.skipped := by
  have hstart : s.sender.chain.index.toNat = 0 := by rw [h.turn.start]; rfl
  obtain ⟨letters, p', s', hwrite, hnumbers, hsent, hwrapped, hname, hp', hs', hskipped⟩ :=
    writeBatch_ok h.turn.ladder hx hround (i := 0)
      (by rw [Nat.zero_add]; exact ho.count) h.short.1 h.speaks
      h.turn.speaks hstart e
  rw [← List.range_eq_range'] at hnumbers
  unfold dispatch
  rw [outcome_bind, hwrite]
  cases hshuffle : o.shuffle with
  | false =>
    refine ⟨letters, p', s', e, rfl, ⟨hsent, .of_eq hnumbers⟩, ?_, hwrapped,
      hname, hp', hs', hskipped⟩
    rw [hnumbers, List.range_eq_range']
    exact timely_range' c _ (.inl rfl)
  | true =>
    obtain ⟨ordered, hperm, hordered⟩ :=
      exists_perm_of_map Letter.written (Shuffler.perm (letters.map Letter.written) e)
    have hnumbers' : (ordered.map Letter.number).Perm (List.range o.messagesPerRound) :=
      hnumbers ▸ hperm.map Letter.number
    refine ⟨ordered, p', s', (Shuffler.shuffle (letters.map Letter.written) e).2, ?_,
      ⟨?_, hnumbers'⟩, ?_, ?_, hname, hp', hs', hskipped⟩
    · simp only [if_true]
      rw [outcome_bind, outcome_liftM, ← hordered]
      rfl
    · exact fun l hl => hsent l (hperm.mem_iff.mp hl)
    · refine timely_of_le (fun i hi => ?_) []
      have hi := List.mem_range.mp (hnumbers'.mem_iff.mp hi)
      have hnear := ho.near hshuffle
      omega
    · exact fun hpending l hl => hwrapped hpending l (hperm.mem_iff.mp hl)

/-- The first letter to arrive makes the listener draw a pair, and the others come after it. -/
theorem Facing.reads_first [Suite.Lawful] (h : Facing t c side rungs k p q s r)
    (hx : rungs[k + 1]? = some x) {l : Letter} (hsent : l.Sent t side x)
    (hpre : s.pending.isSome = true → ∃ m, l.message = .preKey m)
    (hnear : l.number ≤ c.maxForwardJump.toNat) (now : UInt64) (e : Entropy) :
    ∃ after q₁, r.Reads c now l.message.inner e (utf8 l.text) after (e.after 1) ∧ q₁.name = q.name ∧
      q₁.Holds t side.other p.address after ∧ ∀ wanted rest report,
        outcome (readBatch c now p.address (some l.text :: wanted)
          (l.written.2 ++ rest) q report) e =
          outcome (readBatch c now p.address wanted rest q₁ { report with
            decrypted := report.decrypted + 1 })
            (e.after 1) := by
  rw [← side.other_other] at hsent
  obtain ⟨after, hreads⟩ := h.turn.reads hx (hsent.addressed h.listens.abides) hnear now e
  rw [Entropy.keyPair_after] at hreads
  obtain ⟨used, hopen⟩ := h.listens.opens l.message hsent.wrapped hpre
  obtain ⟨q₁, hact, hname, hq₁⟩ :=
    Party.reads hopen h.listens.trusted h.listens.abides hsent.wrapped hreads
  refine ⟨after, q₁, hreads, hname, hq₁, fun wanted rest report => ?_⟩
  rw [readBatch_cons (hsent.framed rest) hact, Report.deliver_own]

/-- A batch that arrives makes the listener draw at least one pair. -/
theorem Facing.deliver_draws [Suite.Lawful] (h : Facing t c side rungs k p q s r)
    (hx : rungs[k + 1]? = some x) {n : Nat} {letters : List Letter}
    (hbatch : Batch t side x n letters) (hn : 0 < n)
    (htimely : Timely c [] (letters.map Letter.number))
    (hpre : s.pending.isSome = true → ∀ l ∈ letters, ∃ m, l.message = .preKey m) (o : Options)
    (now : UInt64) (e : Entropy) (report : Report) :
    ∃ m, (outcome (deliver o c now p.address (letters.map Letter.written) q report) e).2 =
      e.after (m + 1) := by
  obtain ⟨l, letters, rfl⟩ := hbatch.exists_cons hn
  have hnear : l.number ≤ c.maxForwardJump.toNat := htimely.1.resolve_right nofun
  obtain ⟨after, q₁, -, -, -, hrest⟩ := h.reads_first hx (hbatch.sent l List.mem_cons_self)
    (fun hpending => hpre hpending l List.mem_cons_self) hnear now e
  obtain ⟨m, hm⟩ := drawing_readBatch c now p.address _ _ q₁ _ (e.after 1)
  refine ⟨m, ?_⟩
  rw [deliver_cons, hrest, hm, Entropy.after_add, Nat.add_comm]

/-- If that pair is new the whole batch arrives, and the listener has climbed to a rung with it. -/
theorem Facing.deliver_ok [Suite.Lawful] (ho : o.Fit c) (h : Facing t c side rungs k p q s r)
    (hx : rungs[k + 1]? = some x) {letters : List Letter}
    (hbatch : Batch t side x o.messagesPerRound letters) (hn : 0 < o.messagesPerRound)
    (htimely : Timely c [] (letters.map Letter.number))
    (hpre : s.pending.isSome = true → ∀ l ∈ letters, ∃ m, l.message = .preKey m) {e : Entropy}
    (hfresh : (Draw.keyPair e).1.publicKey ∉ rungs.map Rung.key) (now : UInt64) (report : Report) :
    ∃ z q' r', z.pair = (Draw.keyPair e).1 ∧
      outcome (deliver o c now p.address (letters.map Letter.written) q report) e =
        (.ok (q', report.clean o 1), e.after 1) ∧ q'.name = q.name ∧
          q'.Holds t side.other p.address r' ∧
      Listening (rungs ++ [z]) k x o.messagesPerRound (letters.map Letter.number).reverse r' := by
  obtain ⟨l, letters, rfl⟩ := hbatch.exists_cons hn
  have hlength := hbatch.numbers.length_eq
  rw [List.length_map, List.length_range] at hlength
  have hnew : (letters.map Letter.number ++ [l.number]).Nodup := by
    rw [List.nodup_middle, List.append_nil]
    exact hbatch.numbers.nodup_iff.mpr List.nodup_range
  have hnear : l.number ≤ c.maxForwardJump.toNat := htimely.1.resolve_right nofun
  have hsent := hbatch.sent
  rw [← side.other_other] at hsent
  obtain ⟨hfirst, hletters⟩ := List.forall_mem_cons.mp hsent
  obtain ⟨hfirstlt, hletterslt⟩ := List.forall_mem_cons.mp hbatch.number_lt
  obtain ⟨after, q₁, hreads, hname₁, hq₁, hrest⟩ := h.reads_first hx
    (hbatch.sent l List.mem_cons_self)
    (fun hpending => hpre hpending l List.mem_cons_self) hnear now e
  obtain ⟨z, hpair, hlistening⟩ :=
    h.turn.climbs hx ho.ageless ho.cache (hfirst.addressed h.listens.abides) hfirstlt
    hnear hreads hfresh
  obtain ⟨q', r', hread, hname, hq', hlistening'⟩ := readBatch_letters ho.ageless ho.cache
    (fun l' hl' => ⟨hletters l' hl', hletterslt l' hl'⟩) hnew htimely.2 hq₁
    hlistening now (e.after 1)
    (if o.replay then [none] else []) (if o.replay then l.written.2 else [])
    { report with sent := report.sent + (letters.length + 1), decrypted := report.decrypted + 1 }
  refine ⟨z, q', r', hpair, ?_, hname.trans hname₁, hq', ?_⟩
  · rw [deliver_cons, hrest, hread]
    cases hreplay : o.replay with
    | false => simp [readBatch, Report.clean, hreplay, ← hlength, Nat.add_assoc, Nat.add_comm 1]
    | true =>
      have hgot : l.number ∈ (letters.map Letter.number).reverse ++ [l.number] :=
        List.mem_append_right _ List.mem_cons_self
      have hagain := readBatch_again (c := c) hq' hlistening' hfirst hgot now (e.after 1) [] []
      rw [List.append_nil] at hagain
      simp only [if_true]
      rw [hagain]
      simp [readBatch, Report.clean, hreplay, ← hlength, Nat.add_assoc, Nat.add_comm 1]
  · rw [List.map_cons, List.reverse_cons]
    exact hlistening'

end Exchange

end Simulation

end DoubleRatchet
