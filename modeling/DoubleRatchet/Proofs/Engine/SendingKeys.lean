import DoubleRatchet.Proofs.Engine.Draws
import DoubleRatchet.Proofs.Engine.Ledger
import Mathlib.Data.List.Perm.Basic

/-!
# No message key is used twice for sending

Every operation continues the ledger of its device by the pairs that it draws
and the message that it gives out. The indexes of a sender chain only grow, and
no state is ever in two places of the records. Hence, as long as no pair is
drawn twice, no ratchet key and counter come together in two messages.
-/
namespace DoubleRatchet

/-- The message that an operation gives out. -/
def Operation.sent [Suite] (d : Device) : Operation → Option Message
  | encrypt peer plain => (outcome (Engine.encrypt peer plain) d).1.toOption
  | _ => none

/-- The messages that are given out in a number of operations. -/
def Device.sent [Suite] (c : Config) : Device → List Operation → List Message
  | _, [] => []
  | d, op :: ops => (op.sent d).toList ++ sent c (op.perform c d) ops

/-- The public keys of the pairs that an operation draws. -/
def Operation.fresh [Suite] (c : Config) (d : Device) (op : Operation) : List PublicKey :=
  (op.generated c d).map KeyPair.publicKey

namespace Device.Follows

variable [Suite] {c : Config} {l : Ledger} {d : Device}

/-- The last pair drawn for a bundle is offered as its signed pre-key. -/
theorem generate (h : d.Follows l) {deviceId start : UInt32} {count : Nat} {now : UInt64}
    (hfresh : ∀ k ∈ (Operation.generate deviceId start count now).fresh c d, k ∉ l.made) :
    ∃ offered, ((Operation.generate deviceId start count now).perform c d).Follows
      { l.enter ((Operation.generate deviceId start count now).fresh c d) with offered } := by
  have hsessions := loadSession_generate c d deviceId start count now
  rcases hrun : outcome (PreKeys.generateBundle deviceId start count now) d with
    ⟨fault | published, d'⟩
  · refine ⟨l.offered, (h.enter _).congr hsessions ?_⟩
    rw [Operation.perform, hrun]
    exact PreKeys.generateBundle_error hrun
  · have hkey : (Draw.keyPair (d.entropy.after count)).1.publicKey ∈
        (Operation.generate deviceId start count now).fresh c d := by
      rw [Operation.fresh, generated_generate hrun]
      exact List.mem_map_of_mem (d.entropy.last_mem_pairs count)
    have hperform : (Operation.generate deviceId start count now).perform c d = d' := by
      rw [Operation.perform, hrun]
    refine ⟨_, h.offer hkey hfresh hsessions fun id r hr => ?_⟩
    rw [hperform] at hr
    exact ((PreKeys.signed_of_generateBundle hrun).2 id r hr).imp_left (congrArg KeyPair.publicKey)

/-- The state that is started sends on the second pair drawn for it. -/
theorem process (h : d.Follows l) {peer : Address} {b : Bundle}
    (hfresh : ∀ k ∈ (Operation.process peer b).fresh c d, k ∉ l.made) :
    ((Operation.process peer b).perform c d).Follows
      (l.enter ((Operation.process peer b).fresh c d)) := by
  rcases hrun : outcome (Engine.processBundle c peer b) d with ⟨fault | _, d'⟩
  · exact h.unchanged _ (by rw [Operation.perform, hrun, Engine.processBundle_error hrun])
  · obtain ⟨-, -, base, sending, e₁, e₂, agreed, hbase, hsending, hagree, hd'⟩ :=
      Engine.processBundle_ok.mp hrun
    have hperform : (Operation.process peer b).perform c d = d' := by rw [Operation.perform, hrun]
    obtain ⟨hsender, hreceivers⟩ := Engine.started_sends hagree
    have hkey : (Engine.started d.stores b base agreed).senderRatchetKey ∈
        (Operation.process peer b).fresh c d := by
      rw [State.senderRatchetKey, hsender, Operation.fresh,
        generated_process hbase hsending (by rw [hperform, hd'])]
      simp
    have hactive := State.active_iff.mpr hreceivers
    have hold := (h.covers peer).sublist
      (Record.archived_sublist (d.stores.loadSession peer) c.maxArchivedStates)
    refine h.commit hfresh none (by rw [hperform, hd']; rfl) ?_ ?_ fun k hk => ?_
    · exact hold.cons_fresh h.sound hactive hkey hfresh
    · exact fun s hs => Option.some_inj.mp hs ▸ hactive
    · obtain ⟨s, hs, hs', rfl⟩ := mem_sendingKeys.mp hk
      rcases Record.mem_states_promote hs with rfl | hs
      · exact .inr hkey
      · exact .inl (mem_sendingKeys.mpr ⟨s, hs, hs', rfl⟩)

/-- The message that is written goes out on the key of the current state, which
moves on behind it. -/
theorem encrypt (h : d.Follows l) {peer : Address} {plain : Bytes}
    (hfresh : ∀ k ∈ (Operation.encrypt peer plain).fresh c d, k ∉ l.made) :
    ((Operation.encrypt peer plain).perform c d).Follows
      { l.enter ((Operation.encrypt peer plain).fresh c d) with
        sent := l.sent ++ ((Operation.encrypt peer plain).sent d).toList.map fun m =>
          m.inner.name } := by
  rcases hrun : outcome (Engine.encrypt peer plain) d with ⟨fault | m, d'⟩
  · have hsent : (Operation.encrypt peer plain).sent d = none := by rw [Operation.sent, hrun]; rfl
    rw [hsent, Option.toList_none, List.map_nil, List.append_nil, Operation.perform, hrun,
      Engine.encrypt_error hrun]
    exact h.enter _
  · have hsent : (Operation.encrypt peer plain).sent d = some m := by rw [Operation.sent, hrun]; rfl
    obtain ⟨s, t, hcurrent, hwritten, -, hd'⟩ := Engine.encrypt_ok.mp hrun
    have hperform : (Operation.encrypt peer plain).perform c d = d' := by
      rw [Operation.perform, hrun]
    obtain ⟨hname, hkey, hactive, hindex⟩ := State.sends_of_encrypt hwritten
    have hstates : d.states peer = s :: (d.stores.loadSession peer).previous := by
      rw [Device.states, Record.states, hcurrent]
      rfl
    have hs : s ∈ d.states peer := hstates ▸ List.mem_cons_self
    have hlt : s.sender.chain.index < t.sender.chain.index := by
      rw [UInt32.lt_iff_toNat_lt]
      omega
    have hcovers := (hstates ▸ h.covers peer).writes hwritten
    have hcurrent' : t.active = true := hactive.trans (h.current peer s hcurrent)
    have hmoved : d'.Follows (l.enter ((Operation.encrypt peer plain).fresh c d)) := by
      refine h.commit hfresh none (by rw [hd']; rfl) (hcovers.enter _) ?_ fun k hk => ?_
      · exact fun u hu => Option.some_inj.mp hu ▸ hcurrent'
      · left
        rw [hstates]
        change k ∈ sendingKeys (t :: _) at hk
        rw [sendingKeys_cons] at hk ⊢
        rwa [hactive, hkey] at hk
    have ht : t ∈ d'.states peer := by
      rw [Device.states, hd', Stores.loadSession_committed_self]
      exact List.mem_cons_self
    -- whatever was sent on this key lies behind the index that the message takes
    have hnew : (t.senderRatchetKey, s.sender.chain.index) ∉ l.sent := by
      rw [hkey]
      exact fun hold => UInt32.lt_irrefl _ ((h.covers peer).ahead s hs _ hold)
    rw [hperform, hsent, Option.toList_some, List.map_singleton, hname, ← hkey]
    exact hmoved.send ht hcurrent' hlt hnew

/-- Whichever state reads, it sends on as before or on a pair drawn in reading. -/
theorem decrypt (h : d.Follows l) {now : UInt64} {peer : Address} {m : Message}
    (hfresh : ∀ k ∈ (Operation.decrypt now peer m).fresh c d, k ∉ l.made) :
    ((Operation.decrypt now peer m).perform c d).Follows
      (l.enter ((Operation.decrypt now peer m).fresh c d)) := by
  rcases hrun : outcome (Engine.decrypt c now peer m) d with ⟨fault | plain, d'⟩
  · exact h.unchanged _ (by rw [Operation.perform, hrun, Engine.decrypt_error hrun])
  · obtain ⟨x, hopen, hreads, -, hstores⟩ := Engine.decrypt_ok.mp hrun
    have hperform : (Operation.decrypt now peer m).perform c d = d' := by
      rw [Operation.perform, hrun]
    obtain ⟨e₁, hpass, hread⟩ := hreads.reads
    obtain ⟨n, rfl⟩ := hpass.draws
    obtain ⟨hcovers, hstored⟩ := h.opened hopen
    -- the reader in front of the other states of the opened record, none of which is lost
    -- or doubled
    have hperm : (x.before :: x.record.states.eraseIdx x.position).Perm x.record.states := by
      obtain ⟨hlt, hbefore⟩ := List.getElem?_eq_some_iff.mp hreads.place
      exact hbefore ▸ List.getElem_cons_eraseIdx_perm hlt
    have hothers : (x.stored c).states.Sublist (x.after :: x.record.states.eraseIdx x.position) :=
      (x.record.others_sublist c.maxArchivedStates x.position).cons_cons _
    have hdrawn : d'.entropy = (Draw.keyPair (d.entropy.after n)).2 →
        (Draw.keyPair (d.entropy.after n)).1.publicKey ∈
          (Operation.decrypt now peer m).fresh c d := by
      intro hentropy
      rw [Operation.fresh, generated_decrypt (by rw [hperform, hentropy])]
      exact List.mem_map_of_mem (d.entropy.last_mem_pairs n)
    have hafter := (hcovers.perm hperm).reads h.sound hfresh hread hdrawn
    obtain ⟨hactive, hsends⟩ := hread.sends
    have hkeep : ∀ s ∈ x.record.states, s.active = true →
        s.senderRatchetKey ∈ sendingKeys (d.states peer) :=
      fun s hs hs' => mem_sendingKeys.mpr ⟨s, hstored s hs hs', hs', rfl⟩
    rw [hperform]
    refine h.commit hfresh x.used hstores (hafter.sublist hothers) ?_ fun k hk => ?_
    · exact fun s hs => Option.some_inj.mp hs ▸ hactive
    · obtain ⟨s, hs, hs', rfl⟩ := mem_sendingKeys.mp hk
      rcases List.mem_cons.mp hs with rfl | hs
      · rcases hsends with ⟨hbefore, hsame⟩ | ⟨hpair, hentropy⟩
        · rw [State.senderRatchetKey, hsame]
          exact .inl (hkeep _ (hperm.subset List.mem_cons_self) hbefore)
        · rw [State.senderRatchetKey, hpair]
          exact .inr (hdrawn hentropy)
      · exact .inl (hkeep s (Record.mem_states_of_mem_others hs) hs')

/-- Whatever is done, the ledger is continued by the pairs drawn and the message given out. -/
theorem perform (h : d.Follows l) (op : Operation) (hfresh : ∀ k ∈ op.fresh c d, k ∉ l.made) :
    ∃ offered, (op.perform c d).Follows
      ⟨l.made ++ op.fresh c d, offered,
        l.sent ++ (op.sent d).toList.map fun m => m.inner.name⟩ := by
  cases op with
  | generate =>
    obtain ⟨offered, hnext⟩ := h.generate hfresh
    exact ⟨offered, by simpa [Operation.sent, Ledger.enter] using hnext⟩
  | process => exact ⟨l.offered, by simpa [Operation.sent, Ledger.enter] using h.process hfresh⟩
  | encrypt => exact ⟨l.offered, h.encrypt hfresh⟩
  | decrypt => exact ⟨l.offered, by simpa [Operation.sent, Ledger.enter] using h.decrypt hfresh⟩

theorem run (h : d.Follows l) (ops : List Operation)
    (hfresh : (l.made ++ (d.generated c ops).map KeyPair.publicKey).Nodup) :
    ∃ offered, (d.run c ops).Follows ⟨l.made ++ (d.generated c ops).map KeyPair.publicKey, offered,
      l.sent ++ (d.sent c ops).map fun m => m.inner.name⟩ := by
  induction ops generalizing d l with
  | nil => exact ⟨l.offered, by simpa [Device.generated, Device.sent] using h⟩
  | cons op ops ih =>
    rw [Device.generated, List.map_append, ← List.append_assoc] at hfresh ⊢
    have hfirst : (l.made ++ op.fresh c d).Nodup := (List.nodup_append.mp hfresh).1
    obtain ⟨offered, hnext⟩ :=
      h.perform op fun k hk hmade => (List.nodup_append.mp hfirst).2.2 k hmade k hk rfl
    obtain ⟨offered', hlater⟩ := ih hnext hfresh
    refine ⟨offered', ?_⟩
    rw [Device.sent, List.map_append, ← List.append_assoc]
    exact hlater

end Device.Follows

/-- In a run in which no two key pairs drawn have the same public key, no two
messages have the same ratchet key and counter; and once a message is given out,
every stored sender chain on its ratchet key is past its counter. -/
theorem sending_keys_used_once [Suite] (c : Config) (keyPair : KeyPair) (registrationId : UInt32)
    (entropy : Entropy) (ops : List Operation)
    (hfresh : (((Device.new keyPair registrationId entropy).generated c ops).map
      KeyPair.publicKey).Nodup) :
    (((Device.new keyPair registrationId entropy).sent c ops).map fun m => m.inner.name).Nodup ∧
      ∀ m ∈ (Device.new keyPair registrationId entropy).sent c ops, ∀ peer,
        ∀ s ∈ ((Device.new keyPair registrationId entropy).run c ops).states peer,
          s.senderRatchetKey = m.inner.ratchetKey → m.inner.counter < s.sender.chain.index := by
  obtain ⟨offered, hrun⟩ :=
    (Device.Follows.new keyPair registrationId entropy).run (c := c) ops hfresh
  refine ⟨hrun.sound.nodup, fun m hm peer s hs hkey => (hrun.covers peer).ahead s hs _ ?_⟩
  rw [hkey]
  exact List.mem_map_of_mem hm

/-- A responder that reads a message and writes two. -/
def Small.replies : List Operation :=
  [.generate 1 1 2 0, .decrypt 0 Small.alice (Small.greeting {}), .encrypt Small.alice [1],
    .encrypt Small.alice [2]]

/-- Two answers to a message go out on one key, with different counters. -/
theorem sending_keys_used_once_replies :
    ∃ first second s,
      @Device.sent Small.suite {} (Small.device 101) Small.replies = [first, second] ∧
      first.inner.ratchetKey = second.inner.ratchetKey ∧ first.inner.name ≠ second.inner.name ∧
      (@Device.run Small.suite {} (Small.device 101) Small.replies).states Small.alice = [s] ∧
      s.senderRatchetKey = second.inner.ratchetKey ∧
      second.inner.counter < s.sender.chain.index := by
  let := Small.suite
  have hfresh : (((Small.device 101).generated {} Small.replies).map KeyPair.publicKey).Nodup := by
    decide +kernel
  have hkeys : ((Small.device 101).sent {} Small.replies).map (·.inner.ratchetKey) =
      ((Device.run {} (Small.device 101) Small.replies).states Small.alice ++
        (Device.run {} (Small.device 101) Small.replies).states Small.alice).map
        State.senderRatchetKey := by
    decide +kernel
  have hsent : ((Small.device 101).sent {} Small.replies).length = 2 := by decide +kernel
  have hstates : ((Device.run {} (Small.device 101) Small.replies).states Small.alice).length =
      1 := by decide +kernel
  rw [Small.device] at hfresh hkeys hsent hstates ⊢
  obtain ⟨hnames, hpast⟩ := sending_keys_used_once {} _ _ _ Small.replies hfresh
  obtain ⟨first, second, htwo⟩ := List.length_eq_two.mp hsent
  obtain ⟨s, hone⟩ := List.length_eq_one_iff.mp hstates
  rw [htwo, hone] at hkeys
  rw [htwo] at hnames hpast
  have hbehind := hpast second (by simp) Small.alice
  rw [hone] at hbehind
  obtain ⟨hfirst, hsecond⟩ : first.inner.ratchetKey = s.senderRatchetKey ∧
      second.inner.ratchetKey = s.senderRatchetKey := by simpa using hkeys
  refine ⟨first, second, s, htwo, hfirst.trans hsecond.symm, by simpa using hnames,
    hone, hsecond.symm, ?_⟩
  exact hbehind s (by simp) hsecond.symm

end DoubleRatchet
