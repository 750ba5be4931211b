import DoubleRatchet.Proofs.Conversation.Invariant

/-!
# Steps of a seat

What a seat writes and accepts leaves it sound, on its rung or two rungs up. In
the record of the state in mind it is that state that reads a message, or nobody.
-/
namespace DoubleRatchet

/-- The identity that a message presents is the other party's. -/
theorem State.Abides.presented_eq {t : Terms} {side : Side} {s : State} {m : Message}
    (h : s.Abides t side) (hwrapped : ∀ p, m = .preKey p → side.other = .initiator ∧ p.Under t) :
    Engine.presented s m = t.identity side.other := by
  cases m with
  | ratchet m => exact h.remoteIdentity
  | preKey p =>
    obtain ⟨hside, hunder⟩ := hwrapped p rfl
    rw [hside]
    exact hunder.identityKey

/-- Only the initiator wraps messages, and under the terms. -/
theorem State.Abides.wrapped [Suite] {t : Terms} {side : Side} {s : State} (h : s.Abides t side)
    (version : s.version = currentVersion) {plain : Bytes} {p : PreKeyMessage}
    (hp : s.wrapped plain = .preKey p) :
    side = .initiator ∧ p.Under t := by
  rw [State.wrapped] at hp
  rcases h.pending with hnone | ⟨rfl, hsome⟩
  · rw [hnone] at hp
    cases hp
  · rw [hsome] at hp
    obtain rfl := Message.preKey.inj hp
    exact ⟨rfl, version, h.localRegistrationId, rfl, rfl, rfl, h.localIdentity⟩

namespace Seat

section Record

variable {t : Terms} {rungs : List Rung} {n : Nat} {side : Side} {mind : State} {s : Seat}

/-- The chains of a seat are those of the state in mind. -/
theorem Minds.chain?_eq (h : s.Minds t side mind) (r : PublicKey) :
    s.chain? r = mind.receiverChain? r := by
  rcases h.record with hrecord | ⟨hrecord, -, -, hnone⟩
  · rw [chain?, hrecord]
    rfl
  · rw [chain?, hrecord]
    symm
    refine State.receiverChain?_eq_none.mpr fun ch hch => ?_
    rw [hnone] at hch
    cases hch

/-- A seat with a chain has stored the state in mind. -/
theorem Minds.stored (h : s.Minds t side mind) {r : PublicKey} (hr : (s.chain? r).isSome = true) :
    s.record = ⟨some mind, []⟩ := by
  rcases h.record with hrecord | ⟨hrecord, -⟩
  · exact hrecord
  · rw [chain?, hrecord] at hr
    cases hr

/-- What is stored once a message was read. -/
def storesAfter (t : Terms) (side : Side) (after : State) (used : Option UInt32)
    (s : Seat) : Stores :=
  (s.device.stores.committed s.peer (t.identity side.other) ⟨some after, []⟩).withoutUsed used

@[simp] theorem loadSession_storesAfter (after : State) (used : Option UInt32) :
    (s.storesAfter t side after used).loadSession s.peer = ⟨some after, []⟩ := by
  rw [storesAfter, Stores.loadSession_withoutUsed, Stores.loadSession_committed_self]

@[simp] theorem isTrusted_storesAfter (after : State) (used : Option UInt32) :
    (s.storesAfter t side after used).isTrusted s.peer (t.identity side.other) = true := by
  rw [storesAfter, Stores.isTrusted_withoutUsed, Stores.isTrusted_committed_self]

@[simp] theorem own_storesAfter (after : State) (used : Option UInt32) :
    (s.storesAfter t side after used).own = s.device.stores.own := by
  rw [storesAfter, Stores.own_withoutUsed, Stores.own_committed]

/-- A chain that is held was held before. -/
theorem Climbed.again (h : s.Climbed rungs n) {r : PublicKey} (hr : r ∈ s.held) {u : Seat}
    (hheld : u.held = s.held ++ [r]) (hmade : u.ratchetKeys = s.ratchetKeys) :
    u.Climbed rungs n := by
  refine ⟨fun r' => ?_, by rw [hmade]; exact h.made, fun q y hy hturn => ?_⟩
  · rw [hheld, ← h.held r', List.mem_append, List.mem_singleton]
    constructor
    · rintro (hr' | rfl)
      · exact hr'
      · exact hr
    · exact .inl
  · rw [hmade]
    exact h.keys q y hy hturn

/-- A chain is held for the first time, on the rung above, and the next rung is made. -/
theorem Climbed.climb (h : s.Climbed rungs n) {x z : Rung} (hx : rungs[n + 1]? = some x)
    (htop : rungs.length = n + 2) {u : Seat} (hheld : u.held = s.held ++ [x.key])
    (hmade : u.ratchetKeys = s.ratchetKeys ++ [z.key]) :
    u.Climbed (rungs ++ [z]) (n + 2) := by
  have hlength := h.made
  refine ⟨fun r => ?_, by rw [hmade, List.length_append, List.length_singleton]; omega,
    fun q y hy hturn => ?_⟩
  · rw [hheld, List.mem_append, List.mem_singleton, h.held r]
    constructor
    · rintro (⟨q, y, hbelow, hy⟩ | rfl)
      · exact ⟨q, y, (hbelow.append [z]).climb, hy⟩
      · exact ⟨n + 1, x, ⟨getElem?_append_of_some hx, by omega, by omega⟩, rfl⟩
    · rintro ⟨q, y, hbelow, rfl⟩
      have hlt := hbelow.lt
      have hturn := hbelow.turn
      have hrung := hbelow.rung
      rw [List.getElem?_append_left (by omega)] at hrung
      by_cases hlast : q = n + 1
      · subst hlast
        obtain rfl := Option.some_inj.mp (hx.symm.trans hrung)
        exact .inr rfl
      · exact .inl ⟨q, y, ⟨hrung, by omega, by omega⟩, rfl⟩
  · rw [hmade]
    by_cases hlast : q = n + 2
    · rw [hlast, ← htop, List.getElem?_concat_length] at hy
      obtain rfl := Option.some_inj.mp hy
      rw [show q / 2 = s.ratchetKeys.length by omega, List.getElem?_concat_length]
    · have hlt := lt_of_getElem? hy
      rw [List.length_append, List.length_singleton] at hlt
      rw [List.getElem?_append_left (by omega)] at hy
      exact getElem?_append_of_some (h.keys q y hy (by omega))

end Record

variable [Suite] {t : Terms} {rungs : List Rung} {n : Nat} {side : Side} {mind : State}
  {inbox : List (Message × Bytes)} {s : Seat}

/-- A message that is newly written has a name of its own. -/
theorem Sent.new_name (h : s.Sent t rungs n side mind) (hd : Distinct rungs) {x : Rung}
    (hx : rungs[n]? = some x) {m : RatchetMessage} {sender receiver : PublicKey} {plain : Bytes}
    (hm : m.On x mind.sender.chain.index.toNat sender receiver plain) :
    m.name ∉ s.sent.map fun w => w.1.inner.name := by
  intro hmem
  obtain ⟨⟨m', plain'⟩, hsent, hname⟩ := List.mem_map.mp hmem
  obtain ⟨q, y, i, hy, -, hq, hon, hlast⟩ := h.written m' plain' hsent
  obtain ⟨hkey, hcounter⟩ := Prod.mk.inj hname
  have hsame : y.key = x.key := hon.key.symm.trans (hkey.trans hm.key)
  have hindex : i = mind.sender.chain.index.toNat := by
    rw [← hon.counter, hcounter, hm.counter]
  have hlt := hlast (hd q n y x hy hx hq hsame)
  omega

/-- A message that is written on the own rung joins those that were written before. -/
theorem Sent.write (h : s.Sent t rungs n side mind) (hd : Distinct rungs) {x : Rung}
    (hx : rungs[n]? = some x) {m : Message} {plain : Bytes}
    (hm : m.inner.On x mind.sender.chain.index.toNat (t.identity side)
      (t.identity side.other) plain)
    (hwrapped : ∀ p, m = .preKey p → side = .initiator ∧ p.Under t) {after : State}
    (hindex : after.sender.chain.index.toNat = mind.sender.chain.index.toNat + 1) {u : Seat}
    (hu : u.sent = s.sent ++ [(m, plain)]) : u.Sent t rungs n side after := by
  refine ⟨fun m' plain' hsent => ?_, ?_, fun p plain' hsent => ?_⟩
  · rw [hu] at hsent
    rcases List.mem_append.mp hsent with hold | hnew
    · obtain ⟨q, y, i, hy, hq, hturn, hon, hlast⟩ := h.written m' plain' hold
      refine ⟨q, y, i, hy, hq, hturn, hon, fun hn => ?_⟩
      have hlt := hlast hn
      omega
    · obtain ⟨rfl, rfl⟩ := Prod.mk.inj (List.mem_singleton.mp hnew)
      exact ⟨n, x, _, hx, Nat.le_refl n, rfl, hm, fun _ => by omega⟩
  · rw [hu, List.map_append, List.map_singleton]
    refine List.nodup_append.mpr ⟨h.names, List.nodup_singleton _, fun a ha b hb heq => ?_⟩
    rw [heq, List.mem_singleton.mp hb] at ha
    exact h.new_name hd hx hm ha
  · rw [hu] at hsent
    rcases List.mem_append.mp hsent with hold | hnew
    · exact h.wrapped p plain' hold
    · exact hwrapped p (Prod.mk.inj (List.mem_singleton.mp hnew)).1.symm

theorem Sound.write [Suite.Lawful] (h : s.Sound t rungs n side mind inbox) (hl : Ladder rungs)
    (hd : Distinct rungs) {plain : Bytes} {m : Message} {d : Device}
    (hm : outcome (Engine.encrypt s.peer plain) s.device = (.ok m, d)) :
    ∃ after,
      ({ s with device := d, sent := s.sent ++ [(m, plain)] } : Seat).Sound t rungs n side
        after inbox ∧
      d.stores.loadSession s.peer = ⟨some after, []⟩ ∧ after.pending = mind.pending ∧
      m = mind.wrapped plain := by
  obtain ⟨state, after, hcurrent, hwritten, -, rfl⟩ := Engine.encrypt_ok.mp hm
  have hrecord : s.device.stores.loadSession s.peer = ⟨some mind, []⟩ := by
    rcases h.minds.record with hrecord | ⟨hrecord, -⟩
    · exact hrecord
    · rw [Seat.record] at hrecord
      rw [hrecord] at hcurrent
      cases hcurrent
  obtain rfl : mind = state := by
    rw [hrecord] at hcurrent
    exact Option.some_inj.mp hcurrent
  obtain ⟨hstands, hindex, x, hx, hon⟩ := h.stands.writes hl hwritten
  obtain ⟨-, hwrapped, hafter⟩ := State.encrypt_ok.mp hwritten
  rw [h.abides.localIdentity, h.abides.remoteIdentity] at hon
  have hpending : after.pending = mind.pending := by rw [hafter]; rfl
  have hreceivers : after.receivers = mind.receivers := by rw [hafter]; rfl
  have hskipped : after.skipped = mind.skipped := by rw [hafter]; rfl
  have hstored : (s.device.stores.committed s.peer mind.remoteIdentity
      ⟨some after, (s.device.stores.loadSession s.peer).previous⟩).loadSession s.peer =
      ⟨some after, []⟩ := by
    rw [Stores.loadSession_committed_self, hrecord]
  refine ⟨after, ⟨hstands, ?_, ⟨.inl hstored, ?_, h.minds.own⟩, h.climbed.congr rfl rfl, ?_, ?_⟩,
    hstored, hpending, hwrapped⟩
  · exact h.abides.congr (State.sameSession_encrypt hwritten) (.inr hpending)
  · rw [h.abides.remoteIdentity]
    exact Stores.isTrusted_committed_self _ _ _ _
  · exact h.sent.write hd hx hon
      (fun p hp => h.abides.wrapped h.stands.version (hwrapped.symm.trans hp)) hindex rfl
  · exact h.received.congr rfl rfl rfl hreceivers hskipped

section Reading

variable {now : UInt64} {m : Message} {used : Option UInt32} {plain : Bytes}

/-- How a seat reads in the record of the state in mind. -/
def reading (mind : State) (used : Option UInt32) (after : State) : Engine.Reading :=
  ⟨⟨some mind, []⟩, used, 0, mind, after⟩

/-- In the record of the state in mind a message is accepted if that state reads it. -/
theorem Sound.decrypt_ok (h : s.Sound t rungs n side mind inbox)
    (hwrapped : ∀ p, m = .preKey p → side.other = .initiator ∧ p.Under t)
    (hopen : Engine.opened s.bounds s.device.stores s.peer m = .ok (⟨some mind, []⟩, used))
    {d : Device} :
    s.decrypt now m = (.ok plain, d) ↔ ∃ after,
      mind.Reads s.bounds now m.inner s.device.entropy plain after d.entropy ∧
      d.stores = s.storesAfter t side after used := by
  have habides : ∀ {after : State} {e : Entropy},
      mind.Reads s.bounds now m.inner s.device.entropy plain after e →
      Engine.presented after m = t.identity side.other := by
    intro after e hreads
    exact (h.abides.congr hreads.sameSession (.inl hreads.pending)).presented_eq hwrapped
  refine Engine.decrypt_ok.trans ⟨?_, ?_⟩
  · rintro ⟨⟨record, used', position, before, after⟩, hopen', hreads, -, hstores⟩
    obtain ⟨rfl, rfl⟩ := Prod.mk.inj (Except.ok.inj (hopen.symm.trans hopen'))
    obtain ⟨rfl, -, hread⟩ := Record.reads_single.mp hreads
    refine ⟨after, hread, ?_⟩
    rw [hstores]
    simp only [habides hread]
    rfl
  · rintro ⟨after, hread, hstores⟩
    refine ⟨reading mind used after, hopen, Record.reads_single.mpr ⟨rfl, rfl, hread⟩, ?_, ?_⟩
    · simp only [reading, habides hread]
      exact h.minds.trusted
    · rw [hstores]
      simp only [reading, habides hread]
      rfl

theorem reading?_eq {after : State} {e : Entropy}
    (hopen : Engine.opened s.bounds s.device.stores s.peer m = .ok (⟨some mind, []⟩, used))
    (hread : mind.Reads s.bounds now m.inner s.device.entropy plain after e) :
    Engine.reading? s.bounds now s.peer m s.device = some (reading mind used after) :=
  Engine.reading?_eq_some.mpr ⟨hopen, plain, e, Record.reads_single.mpr ⟨rfl, rfl, hread⟩⟩

/-- The seat after the state in mind has read a message. -/
def took (s : Seat) (now : UInt64) (position : Nat) (m : Message) (mind after : State)
    (used : Option UInt32) (d : Device) : Seat :=
  { s.accept now position m.inner (reading mind used after) with device := d }

theorem receive_ok {position : Nat} {after : State} {d : Device} {e : Entropy}
    (hopen : Engine.opened s.bounds s.device.stores s.peer m = .ok (⟨some mind, []⟩, used))
    (hread : mind.Reads s.bounds now m.inner s.device.entropy plain after e) {text : Bytes}
    (hd : s.decrypt now m = (.ok text, d)) :
    s.receive now position m = s.took now position m mind after used d := by
  rw [receive, hd, reading?_eq hopen hread]
  rfl

theorem receive_error {position : Nat} {fault : SessionError} {d : Device}
    (hd : s.decrypt now m = (.error fault, d)) :
    s.receive now position m = { s with device := d } := by
  rw [receive, hd]

/-- What a reading leaves of the stores. -/
theorem Minds.took (h : s.Minds t side mind) {position : Nat} {after : State} {d : Device}
    (hd : d.stores = s.storesAfter t side after used) :
    (s.took now position m mind after used d).Minds t side after := by
  refine ⟨.inl ?_, ?_, ?_⟩
  · exact (congrArg (·.loadSession s.peer) hd).trans (loadSession_storesAfter after used)
  · exact (congrArg (·.isTrusted s.peer (t.identity side.other)) hd).trans
      (isTrusted_storesAfter after used)
  · exact (congrArg Stores.own hd).trans ((own_storesAfter after used).trans h.own)

/-- A message that is accepted is spent, and what was spent before stays so
while its chain is held: no chain that was ever held comes back. -/
theorem Received.took (h : s.Received inbox mind) (hcoherent : mind.Coherent) {position : Nat}
    {text : Bytes} (hm : inbox[position]? = some (m, text))
    (hfair : m.inner.ratchetKey ∉ s.held ∨ mind.hasReceiverChain m.inner.ratchetKey = true)
    {after : State} {d : Device}
    (hread : mind.Reads s.bounds now m.inner s.device.entropy plain after d.entropy) :
    (s.took now position m mind after used d).Received inbox after := by
  obtain ⟨-, hspent⟩ := hcoherent.reads hread
  have hself : (s.took now position m mind after used d).Took inbox m.inner.name :=
    ⟨position, List.mem_append_right _ List.mem_cons_self, m, text, hm, rfl⟩
  refine ⟨fun position' hposition => ?_, ?_⟩
  · rcases List.mem_append.mp hposition with hold | hnew
    · obtain ⟨m', plain', hm', hheld, hgone⟩ := h.accepted position' hold
      refine ⟨m', plain', hm', List.mem_append_left _ hheld, fun hholds => ?_⟩
      rcases hcoherent.held_of_reads hread hholds with hbefore | hkey
      · exact (hgone hbefore).reads hcoherent hread hholds
      · rw [hkey] at hheld hgone hholds ⊢
        rcases hfair with hnever | hbefore
        · exact absurd hheld hnever
        · exact (hgone hbefore).reads hcoherent hread hholds
    · obtain rfl := List.mem_singleton.mp hnew
      exact ⟨m, text, hm, List.mem_append_right _ List.mem_cons_self, fun _ => hspent⟩
  · refine (h.accounts.reads hcoherent hread).mono fun name hname => ?_
    rcases hname with (hlost | ⟨position', hposition, htook⟩) | rfl | hlost
    · exact .inl (List.mem_append_left _ hlost)
    · exact .inr ⟨position', List.mem_append_left _ hposition, htook⟩
    · exact .inr hself
    · exact .inl (List.mem_append_right _ hlost)

/-- What was written stays below the new rung. -/
theorem Sent.climb (h : s.Sent t rungs n side mind) (more : List Rung) {u : Seat}
    (hu : u.sent = s.sent) (after : State) : u.Sent t (rungs ++ more) (n + 2) side after := by
  refine ⟨fun m plain hm => ?_, hu ▸ h.names, hu ▸ h.wrapped⟩
  rw [hu] at hm
  obtain ⟨q, y, i, hy, hle, hturn, hon, -⟩ := h.written m plain hm
  exact ⟨q, y, i, getElem?_append_of_some hy, by omega, by omega, hon, fun heq => by omega⟩

/-- The state in mind reads on a chain that it holds, and stays on its rung. -/
theorem Sound.took_held (h : s.Sound t rungs n side mind inbox) (hl : Ladder rungs)
    (hd : Distinct rungs) {position q : Nat} {x : Rung} {text : Bytes}
    (hm : inbox[position]? = some (m, text)) (hx : rungs[q]? = some x) (hq : q % 2 ≠ n % 2)
    (hkey : m.inner.ratchetKey = x.key) {chain : ChainKey}
    (hold : mind.receiverChain? m.inner.ratchetKey = some chain) {after : State} {d : Device}
    (hread : mind.Reads s.bounds now m.inner s.device.entropy plain after d.entropy)
    (hstores : d.stores = s.storesAfter t side after used) :
    (s.took now position m mind after used d).Sound t rungs n side after inbox := by
  obtain ⟨hstands, hsender⟩ := h.stands.reads_held hl hd hx hq hkey hold hread
  have hholds : mind.hasReceiverChain m.inner.ratchetKey = true := by
    rw [State.hasReceiverChain, hold]; rfl
  have hlt := (h.stands.chain_eq hd hx hq (hkey ▸ hold)).1
  have hheld : m.inner.ratchetKey ∈ s.held :=
    (h.climbed.held _).mpr ⟨q, x, ⟨hx, hlt, hq⟩, hkey.symm⟩
  have hmade : (s.took now position m mind after used d).ratchetKeys = s.ratchetKeys :=
    if_pos hholds
  refine ⟨hstands, h.abides.congr hread.sameSession (.inl hread.pending), h.minds.took hstores,
    h.climbed.again hheld rfl hmade, ⟨fun m' plain' hsent => ?_, h.sent.names, h.sent.wrapped⟩,
    h.received.took h.stands.coherent hm (.inr hholds) hread⟩
  rw [hsender]
  exact h.sent.written m' plain' hsent

/-- The state in mind reads on the rung above, and makes the next one. -/
theorem Sound.took_new (h : s.Sound t rungs n side mind inbox) (hl : Ladder rungs) {position : Nat}
    {x : Rung} {text : Bytes} (hm : inbox[position]? = some (m, text)) (hx : rungs[n + 1]? = some x)
    (htop : rungs.length = n + 2) (hkey : m.inner.ratchetKey = x.key)
    (new : mind.receiverChain? m.inner.ratchetKey = none) (hnever : m.inner.ratchetKey ∉ s.held)
    {after : State} {d : Device}
    (hread : mind.Reads s.bounds now m.inner s.device.entropy plain after d.entropy)
    (hstores : d.stores = s.storesAfter t side after used) :
    ∃ z : Rung,
      z.pair.Genuine ∧ x.root.createChain x.key z.pair.privateKey = .ok (z.root, z.chain) ∧
      (s.took now position m mind after used d).Sound t (rungs ++ [z])
        (n + 2) side after inbox := by
  obtain ⟨z, hpair, hnext, hstands, hsender⟩ := h.stands.reads_new hl hx htop hkey new hread
  have hnew : mind.hasReceiverChain m.inner.ratchetKey = false := by
    rw [State.hasReceiverChain, new]; rfl
  have hmade :
      (s.took now position m mind after used d).ratchetKeys = s.ratchetKeys ++ [z.key] := by
    have hz : after.senderRatchetKey = z.key := by rw [State.senderRatchetKey, hsender]; rfl
    rw [← hz]
    exact if_neg (by rw [reading, hnew]; exact Bool.false_ne_true)
  have hheld : (s.took now position m mind after used d).held = s.held ++ [x.key] :=
    congrArg (fun key => s.held ++ [key]) hkey
  have hsent : (s.took now position m mind after used d).sent = s.sent := rfl
  exact ⟨z, hpair ▸ genuine_keyPair _, hnext, hstands,
    h.abides.congr hread.sameSession (.inl hread.pending), h.minds.took hstores,
    h.climbed.climb hx htop hheld hmade, h.sent.climb [z] hsent after,
    h.received.took h.stands.coherent hm (.inl hnever) hread⟩

end Reading

end Seat

end DoubleRatchet
