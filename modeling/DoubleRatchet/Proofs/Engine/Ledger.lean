import DoubleRatchet.Proofs.Engine.Runs

/-!
# Keeping books on sending keys

A state that has a receiver chain sends on a pair of its own, drawn for it when
it was set up as initiator or made a ratchet step. The responder's new state is
the only one without, and its sender chain is on the signed pre-key, which
several states may have in common: it makes a ratchet step before it becomes
current, so nothing is ever sent on a signed pre-key. A ledger holds what was
drawn, offered and sent so far, and a device follows it: no two states send on
one key, and every sender chain is past what was sent on its key.
-/
namespace DoubleRatchet

/-- A state with a receiver chain; its sender chain is on a pair of its own. -/
def State.active (s : State) : Bool := !s.receivers.isEmpty

/-- The ratchet keys on which the active ones of some states send. -/
def sendingKeys (states : List State) : List PublicKey :=
  (states.filter State.active).map State.senderRatchetKey

theorem mem_sendingKeys {states : List State} {k : PublicKey} :
    k ∈ sendingKeys states ↔ ∃ s ∈ states, s.active = true ∧ s.senderRatchetKey = k := by
  simp [sendingKeys, and_assoc]

theorem sendingKeys_cons (s : State) (states : List State) :
    sendingKeys (s :: states) =
      if s.active then s.senderRatchetKey :: sendingKeys states else sendingKeys states := by
  rw [sendingKeys, List.filter_cons]
  split <;> rfl

namespace State

theorem active_iff {s : State} : s.active = true ↔ s.receivers ≠ [] := by
  simp [active]

variable [Suite]

/-- A state that has read a message is active. It sends on as before, or on the
pair that was drawn in reading. -/
theorem Reads.sends {c : Config} {now : UInt64} {s after : State} {m : RatchetMessage}
    {e e' : Entropy} {plain : Bytes} (h : s.Reads c now m e plain after e') :
    after.active = true ∧ (s.active = true ∧ after.sender = s.sender ∨
      after.sender.keyPair = (Draw.keyPair e).1 ∧ e' = (Draw.keyPair e).2) := by
  obtain ⟨-, chain, ready, keys, taken, hready, hkeys, -, -, rfl⟩ := h
  obtain ⟨htaken, hlength⟩ := keysAt_eq hkeys
  have hsender : taken.sender = ready.sender := by rw [htaken]
  have hactive : taken.active = ready.active := by
    rw [active, active, Bool.eq_iff_iff]
    simp [← List.length_eq_zero_iff, hlength]
  change taken.active = true ∧ (_ ∧ taken.sender = _ ∨ taken.sender.keyPair = _ ∧ _)
  rw [hactive, hsender]
  cases hready with
  | held hold =>
    have hmem := mem_of_receiverChain? hold
    have hne : (s.expire c now).active = true := by
      simp [active, List.ne_nil_of_mem hmem]
    have hs : s.active = true := by rwa [active, expire_receivers] at hne
    exact ⟨hne, .inl ⟨hs, by rw [expire_eq]⟩⟩
  | stepped => exact ⟨by simp [active, ratcheted], .inr ⟨rfl, rfl⟩⟩

/-- Writing moves the sender chain on, and changes nothing else. -/
theorem sends_of_encrypt {s t : State} {plain : Bytes} {m : Message}
    (h : s.encrypt plain = .ok (m, t)) :
    m.inner.name = (s.senderRatchetKey, s.sender.chain.index) ∧
      t.senderRatchetKey = s.senderRatchetKey ∧ t.active = s.active ∧
      t.sender.chain.index.toNat = s.sender.chain.index.toNat + 1 := by
  obtain ⟨hend, rfl, rfl⟩ := encrypt_ok.mp h
  rw [inner_wrapped]
  exact ⟨rfl, rfl, rfl, toNat_succ hend⟩

end State

/-- What became of key pairs so far, by their public keys: all that were drawn,
those of signed pre-keys, and the ratchet keys and counters of messages sent. -/
structure Ledger where
  made : List PublicKey
  offered : List PublicKey
  sent : List (PublicKey × UInt32)

namespace Ledger

/-- Enters pairs that are drawn. -/
def enter (l : Ledger) (fresh : List PublicKey) : Ledger := { l with made := l.made ++ fresh }

def offer (l : Ledger) (k : PublicKey) : Ledger := { l with offered := k :: l.offered }

def send (l : Ledger) (name : PublicKey × UInt32) : Ledger := { l with sent := l.sent ++ [name] }

/-- Nothing is sent on a signed pre-key, and nothing is sent twice. -/
structure Sound (l : Ledger) : Prop where
  offered : ∀ k ∈ l.offered, k ∈ l.made
  sent : ∀ x ∈ l.sent, x.1 ∈ l.made ∧ x.1 ∉ l.offered
  nodup : l.sent.Nodup

/-- Some states send as the ledger has it: the active ones on keys of their own,
behind which all messages sent on them lie, the others on signed pre-keys. -/
structure Covers (l : Ledger) (states : List State) : Prop where
  made : ∀ s ∈ states, s.senderRatchetKey ∈ l.made
  active : ∀ s ∈ states, s.active = true ↔ s.senderRatchetKey ∉ l.offered
  apart : (sendingKeys states).Nodup
  ahead : ∀ s ∈ states, ∀ n, (s.senderRatchetKey, n) ∈ l.sent → n < s.sender.chain.index

theorem Sound.enter {l : Ledger} (h : l.Sound) (fresh : List PublicKey) : (l.enter fresh).Sound :=
  ⟨fun k hk => List.mem_append_left _ (h.offered k hk),
    fun x hx => ⟨List.mem_append_left _ (h.sent x hx).1, (h.sent x hx).2⟩, h.nodup⟩

/-- A pair that was just drawn may become a signed pre-key. -/
theorem Sound.offer {l : Ledger} {fresh : List PublicKey} {k : PublicKey} (h : l.Sound)
    (hk : k ∈ fresh) (hfresh : ∀ k ∈ fresh, k ∉ l.made) : ((l.enter fresh).offer k).Sound := by
  refine ⟨List.forall_mem_cons.mpr ⟨List.mem_append_right _ hk, (h.enter fresh).offered⟩,
    fun x hx => ?_, h.nodup⟩
  obtain ⟨hmade, hoffered⟩ := h.sent x hx
  refine ⟨List.mem_append_left _ hmade, fun hx => ?_⟩
  rcases List.mem_cons.mp hx with heq | hx
  · exact hfresh k hk (heq ▸ hmade)
  · exact hoffered hx

namespace Covers

variable {l : Ledger} {s t : State} {states : List State}

theorem nil (l : Ledger) : l.Covers [] := by
  constructor <;> simp [sendingKeys]

theorem enter (h : l.Covers states) (fresh : List PublicKey) : (l.enter fresh).Covers states :=
  ⟨fun s hs => List.mem_append_left _ (h.made s hs), h.active, h.apart, h.ahead⟩

theorem offer {fresh : List PublicKey} {k : PublicKey} (h : l.Covers states) (hk : k ∈ fresh)
    (hfresh : ∀ k ∈ fresh, k ∉ l.made) : ((l.enter fresh).offer k).Covers states := by
  refine ⟨(h.enter fresh).made, fun s hs => (h.active s hs).trans ?_, h.apart, h.ahead⟩
  have hne : s.senderRatchetKey ≠ k := fun heq => hfresh k hk (heq ▸ h.made s hs)
  change _ ↔ s.senderRatchetKey ∉ k :: l.offered
  simp [hne]

theorem sublist {rest : List State} (h : l.Covers states) (hs : rest.Sublist states) :
    l.Covers rest :=
  ⟨fun s hm => h.made s (hs.subset hm), fun s hm => h.active s (hs.subset hm),
    h.apart.sublist ((hs.filter _).map _), fun s hm => h.ahead s (hs.subset hm)⟩

theorem perm {others : List State} (h : l.Covers states) (hp : others.Perm states) :
    l.Covers others :=
  ⟨fun s hm => h.made s (hp.subset hm), fun s hm => h.active s (hp.subset hm),
    ((hp.filter _).map _).nodup_iff.mpr h.apart, fun s hm => h.ahead s (hp.subset hm)⟩

/-- A responder's new state may come in, on a signed pre-key. -/
theorem cons_offered (h : l.Covers states) (hl : l.Sound) (hpassive : s.active = false)
    (hkey : s.senderRatchetKey ∈ l.offered) : l.Covers (s :: states) := by
  refine ⟨List.forall_mem_cons.mpr ⟨hl.offered _ hkey, h.made⟩,
    List.forall_mem_cons.mpr ⟨by simp [hpassive, hkey], h.active⟩, ?_,
    List.forall_mem_cons.mpr ⟨?_, h.ahead⟩⟩
  · rw [sendingKeys_cons, hpassive]
    exact h.apart
  · exact fun n hn => absurd hkey (hl.sent _ hn).2

/-- An active state may come in on a pair that was just drawn. -/
theorem cons_fresh {fresh : List PublicKey} (h : l.Covers states) (hl : l.Sound)
    (hactive : s.active = true) (hkey : s.senderRatchetKey ∈ fresh)
    (hfresh : ∀ k ∈ fresh, k ∉ l.made) :
    (l.enter fresh).Covers (s :: states) := by
  have hnew := hfresh _ hkey
  have hoffered : s.senderRatchetKey ∉ l.offered := fun hk => hnew (hl.offered _ hk)
  refine ⟨List.forall_mem_cons.mpr ⟨List.mem_append_right _ hkey, (h.enter fresh).made⟩,
    List.forall_mem_cons.mpr ⟨iff_of_true hactive hoffered, h.active⟩, ?_,
    List.forall_mem_cons.mpr ⟨?_, h.ahead⟩⟩
  · rw [sendingKeys_cons, if_pos hactive, List.nodup_cons]
    refine ⟨fun hk => ?_, h.apart⟩
    obtain ⟨t, ht, -, heq⟩ := mem_sendingKeys.mp hk
    exact hnew (heq ▸ h.made t ht)
  · exact fun n hn => absurd (hl.sent _ hn).1 hnew

/-- A state may move on along its sender chain. -/
theorem replace (h : l.Covers (s :: states)) (hkey : t.senderRatchetKey = s.senderRatchetKey)
    (hactive : t.active = s.active) (hindex : s.sender.chain.index ≤ t.sender.chain.index) :
    l.Covers (t :: states) := by
  have hs := List.mem_cons_self (a := s) (l := states)
  have hrest := h.sublist (List.sublist_cons_self s states)
  refine ⟨List.forall_mem_cons.mpr ⟨hkey ▸ h.made s hs, hrest.made⟩,
    List.forall_mem_cons.mpr ⟨by rw [hactive, hkey]; exact h.active s hs, hrest.active⟩, ?_,
    List.forall_mem_cons.mpr ⟨fun n hn => ?_, hrest.ahead⟩⟩
  · have hapart := h.apart
    rw [sendingKeys_cons] at hapart ⊢
    rwa [hactive, hkey]
  · exact UInt32.lt_of_lt_of_le (h.ahead s hs n (hkey ▸ hn)) hindex

/-- A state that writes moves on behind the message. -/
theorem writes [Suite] {plain : Bytes} {m : Message} (h : l.Covers (s :: states))
    (hm : s.encrypt plain = .ok (m, t)) :
    l.Covers (t :: states) := by
  obtain ⟨-, hkey, hactive, hindex⟩ := State.sends_of_encrypt hm
  refine h.replace hkey hactive (UInt32.le_iff_toNat_le.mpr ?_)
  omega

/-- A state that reads stays on its key, or goes on to the pair drawn in reading. -/
theorem reads [Suite] {c : Config} {now : UInt64} {m : RatchetMessage} {e e' : Entropy}
    {plain : Bytes} {fresh : List PublicKey} (h : l.Covers (s :: states)) (hl : l.Sound)
    (hfresh : ∀ k ∈ fresh, k ∉ l.made) (hr : s.Reads c now m e plain t e')
    (hdrawn : e' = (Draw.keyPair e).2 → (Draw.keyPair e).1.publicKey ∈ fresh) :
    (l.enter fresh).Covers (t :: states) := by
  obtain ⟨hactive, ⟨hbefore, hsame⟩ | ⟨hpair, hentropy⟩⟩ := hr.sends
  · have hkey : t.senderRatchetKey = s.senderRatchetKey := by
      rw [State.senderRatchetKey, hsame, State.senderRatchetKey]
    have hle : s.sender.chain.index ≤ t.sender.chain.index := by
      rw [hsame]
      exact UInt32.le_refl _
    exact (h.replace hkey (hactive.trans hbefore.symm) hle).enter fresh
  · have hkey : t.senderRatchetKey ∈ fresh := by
      rw [State.senderRatchetKey, hpair]
      exact hdrawn hentropy
    exact (h.sublist (List.sublist_cons_self _ _)).cons_fresh hl hactive hkey hfresh

end Covers

end Ledger

/-- A device stands as the ledger has it: whatever is current is active, and no
two active states of whatever records send on the same key. -/
structure Device.Follows (l : Ledger) (d : Device) : Prop where
  sound : l.Sound
  covers : ∀ peer, l.Covers (d.states peer)
  current : ∀ peer s, (d.stores.loadSession peer).current = some s → s.active = true
  apart : ∀ peer other, peer ≠ other → ∀ k ∈ sendingKeys (d.states peer),
      k ∉ sendingKeys (d.states other)
  signed : ∀ id r, d.stores.signedPreKeys.get? id = some r → r.keyPair.publicKey ∈ l.offered

namespace Device.Follows

variable {l : Ledger} {d d' : Device}

theorem new (keyPair : KeyPair) (registrationId : UInt32) (entropy : Entropy) :
    (Device.new keyPair registrationId entropy).Follows ⟨[], [], []⟩ := by
  refine ⟨⟨?_, ?_, List.nodup_nil⟩, fun _ => .nil _, ?_, ?_, ?_⟩
  · exact fun k hk => absurd hk List.not_mem_nil
  · exact fun x hx => absurd hx List.not_mem_nil
  · exact fun peer s hs => nomatch hs
  · exact fun peer other _ k hk => absurd hk List.not_mem_nil
  · exact fun id r hr => nomatch hr

/-- Only the records and the signed pre-keys count. -/
theorem congr (h : d.Follows l)
    (hsessions : ∀ peer, d'.stores.loadSession peer = d.stores.loadSession peer)
    (hsigned : d'.stores.signedPreKeys = d.stores.signedPreKeys) : d'.Follows l := by
  have hstates : ∀ peer, d'.states peer = d.states peer := fun peer => by
    rw [Device.states, Device.states, hsessions]
  refine ⟨h.sound, fun peer => hstates peer ▸ h.covers peer, fun peer s hs => ?_,
    fun peer other hne => ?_, ?_⟩
  · exact h.current peer s (hsessions peer ▸ hs)
  · rw [hstates, hstates]
    exact h.apart peer other hne
  · rw [hsigned]
    exact h.signed

theorem enter (h : d.Follows l) (fresh : List PublicKey) : d.Follows (l.enter fresh) :=
  ⟨h.sound.enter fresh, fun peer => (h.covers peer).enter fresh, h.current, h.apart, h.signed⟩

/-- Whatever is drawn, nothing changes while the stores stay as they are. -/
theorem unchanged (h : d.Follows l) (fresh : List PublicKey) (hstores : d'.stores = d.stores) :
    d'.Follows (l.enter fresh) :=
  (h.enter fresh).congr (fun _ => by rw [hstores]) (by rw [hstores])

/-- A pair that was just drawn may be stored as a signed pre-key. -/
theorem offer (h : d.Follows l) {fresh : List PublicKey} {k : PublicKey} (hk : k ∈ fresh)
    (hfresh : ∀ k ∈ fresh, k ∉ l.made)
    (hsessions : ∀ peer, d'.stores.loadSession peer = d.stores.loadSession peer)
    (hsigned : ∀ id r, d'.stores.signedPreKeys.get? id = some r →
      r.keyPair.publicKey = k ∨ d.stores.signedPreKeys.get? id = some r) :
    d'.Follows ((l.enter fresh).offer k) := by
  have hstates : ∀ peer, d'.states peer = d.states peer := fun peer => by
    rw [Device.states, Device.states, hsessions]
  refine ⟨h.sound.offer hk hfresh, fun peer => hstates peer ▸ (h.covers peer).offer hk hfresh,
    fun peer s hs => h.current peer s (hsessions peer ▸ hs),
    fun peer other hne => ?_, fun id r hr => ?_⟩
  · rw [hstates, hstates]
    exact h.apart peer other hne
  · rcases hsigned id r hr with hnew | hold
    · rw [hnew]
      exact List.mem_cons_self
    · exact List.mem_cons_of_mem _ (h.signed id r hold)

/-- An active state is the only one that sends on its key. -/
theorem eq_of_key (h : d.Follows l) {peer other : Address} {s t : State} (ht : t ∈ d.states peer)
    (hactive : t.active = true) (hs : s ∈ d.states other)
    (hkey : s.senderRatchetKey = t.senderRatchetKey) : s = t := by
  have hoffered := ((h.covers peer).active t ht).mp hactive
  have hsame : s.active = true := ((h.covers other).active s hs).mpr (hkey ▸ hoffered)
  by_cases hpeer : peer = other
  · subst hpeer
    have hs' := List.mem_filter.mpr ⟨hs, hsame⟩
    exact List.inj_on_of_nodup_map (h.covers peer).apart hs'
      (List.mem_filter.mpr ⟨ht, hactive⟩) hkey
  · have hshared := mem_sendingKeys.mpr ⟨s, hs, hsame, hkey⟩
    exact absurd hshared (h.apart peer other hpeer _ (mem_sendingKeys.mpr ⟨t, ht, hactive, rfl⟩))

/-- A message may go out on the key of an active state, behind that state's index. -/
theorem send (h : d.Follows l) {peer : Address} {t : State} (ht : t ∈ d.states peer)
    (hactive : t.active = true) {n : UInt32} (hn : n < t.sender.chain.index)
    (hnew : (t.senderRatchetKey, n) ∉ l.sent) :
    d.Follows (l.send (t.senderRatchetKey, n)) := by
  refine ⟨⟨h.sound.offered, fun x hx => ?_, ?_⟩, fun other => ?_, h.current, h.apart, h.signed⟩
  · rcases List.mem_append.mp hx with hx | hx
    · exact h.sound.sent x hx
    · rw [List.mem_singleton.mp hx]
      exact ⟨(h.covers peer).made t ht, ((h.covers peer).active t ht).mp hactive⟩
  · refine List.nodup_append.mpr ⟨h.sound.nodup, List.nodup_singleton _,
      fun x hx y hy hxy => hnew ?_⟩
    rwa [← List.mem_singleton.mp hy, ← hxy]
  · have hcovers := h.covers other
    refine ⟨hcovers.made, hcovers.active, hcovers.apart, fun s hs k hk => ?_⟩
    rcases List.mem_append.mp hk with hk | hk
    · exact hcovers.ahead s hs k hk
    · obtain ⟨hkey, rfl⟩ := Prod.mk.inj (List.mem_singleton.mp hk)
      rwa [h.eq_of_key ht hactive hs hkey]

/-- A record may be stored in which the active states send on keys that they had
there before, or on a pair that was just drawn. -/
theorem commit (h : d.Follows l) {fresh : List PublicKey} (hfresh : ∀ k ∈ fresh, k ∉ l.made)
    {peer : Address} {identity : PublicKey} {r : Record} (used : Option UInt32)
    (hstores : d'.stores = (d.stores.committed peer identity r).withoutUsed used)
    (hcovers : (l.enter fresh).Covers r.states)
    (hcurrent : ∀ s, r.current = some s → s.active = true)
    (hkeys : ∀ k ∈ sendingKeys r.states, k ∈ sendingKeys (d.states peer) ∨ k ∈ fresh) :
    d'.Follows (l.enter fresh) := by
  have hload : ∀ other, d'.stores.loadSession other =
      if other = peer then r else d.stores.loadSession other := by
    intro other
    rw [hstores, Stores.loadSession_withoutUsed, Stores.loadSession_committed]
  have hself : d'.states peer = r.states := by rw [Device.states, hload, if_pos rfl]
  have hother : ∀ other, other ≠ peer → d'.states other = d.states other := by
    intro other hne
    rw [Device.states, hload, if_neg hne, Device.states]
  have hsigned : d'.stores.signedPreKeys = d.stores.signedPreKeys := by
    rw [hstores]
    cases used <;> rfl
  -- a fresh key is nobody else's, since all the others' were drawn before
  have hforeign : ∀ other, other ≠ peer →
      ∀ k ∈ sendingKeys r.states, k ∉ sendingKeys (d.states other) := by
    intro other hne k hk hshared
    rcases hkeys k hk with hk | hk
    · exact h.apart peer other hne.symm k hk hshared
    · obtain ⟨s, hs, -, rfl⟩ := mem_sendingKeys.mp hshared
      exact hfresh _ hk ((h.covers other).made s hs)
  refine ⟨h.sound.enter fresh, fun other => ?_, fun other s hs => ?_,
    fun first second hne k hk => ?_, ?_⟩
  · by_cases hpeer : other = peer
    · rw [hpeer, hself]
      exact hcovers
    · rw [hother other hpeer]
      exact (h.covers other).enter fresh
  · rw [hload] at hs
    split at hs
    · exact hcurrent s hs
    · exact h.current other s hs
  · by_cases hfirst : first = peer
    · rw [hfirst, hself] at hk
      rw [hother second fun heq => hne (hfirst.trans heq.symm)]
      exact hforeign second (fun heq => hne (hfirst.trans heq.symm)) k hk
    · rw [hother first hfirst] at hk
      by_cases hsecond : second = peer
      · rw [hsecond, hself]
        exact fun hshared => hforeign first hfirst k hshared hk
      · rw [hother second hsecond]
        exact h.apart first second hne k hk
  · rw [hsigned]
    exact h.signed

/-- The states of a record opened for a message stand as the ledger has it, and
the active ones of them are stored. -/
theorem opened [Suite] (h : d.Follows l) {c : Config} {peer : Address} {m : Message} {r : Record}
    {used : Option UInt32} (hopen : Engine.opened c d.stores peer m = .ok (r, used)) :
    l.Covers r.states ∧ ∀ s ∈ r.states, s.active = true → s ∈ d.states peer := by
  cases m with
  | ratchet m =>
    cases hopen
    exact ⟨h.covers peer, fun s hs _ => hs⟩
  | preKey p =>
    obtain ⟨-, ⟨-, rfl, -⟩ | ⟨-, own, hown, rfl, -⟩⟩ := Engine.prepare_ok.mp hopen
    · exact ⟨h.covers peer, fun s hs _ => hs⟩
    · obtain ⟨signed, hsigned, hsender⟩ := Engine.respond_sends hown
      have hpassive : own.active = false := by
        rw [Bool.eq_false_iff, ne_eq, State.active_iff, not_not]
        exact (Engine.respond_new hown).2.2.2
      have hkey : own.senderRatchetKey ∈ l.offered := by
        rw [State.senderRatchetKey, hsender]
        exact h.signed _ signed hsigned
      rw [Record.states_promote]
      refine ⟨((h.covers peer).sublist (Record.archived_sublist _ _)).cons_offered
        h.sound hpassive hkey, ?_⟩
      rintro s hs hactive
      rcases List.mem_cons.mp hs with rfl | hs
      · rw [hpassive] at hactive
        cases hactive
      · exact Record.mem_states_of_mem_archived hs

end Device.Follows

end DoubleRatchet
