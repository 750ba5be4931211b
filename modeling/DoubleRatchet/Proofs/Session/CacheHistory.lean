import DoubleRatchet.Proofs.Session.SkippedKeys
import Mathlib.Data.List.Induction
import Mathlib.Data.List.Nodup

/-!
# The history of a cache of skipped keys

A cache is asked to cache keys, to give keys out and to drop those of a chain or
of an age, in any order. What it holds then depends on this history alone: the
last keys cached for each message, in the order in which they came, unless they
were given out, dropped or crowded out by later ones. Main statement:
`SkippedKeys.bounded_ordered_map`.
-/
namespace DoubleRatchet

/-- What is asked of a cache. -/
inductive CacheRequest
  | insert (ratchetKey : PublicKey) (keys : MessageKeys) (storedAt : UInt64) (capacity : Nat)
  | take (ratchetKey : PublicKey) (counter : UInt32)
  | purge (ratchetKey : PublicKey)
  | prune (cutoff : UInt64)

/-- Whether keys are cached for a message. -/
def CacheRequest.inserts (name : PublicKey × UInt32) : CacheRequest → Bool
  | insert ratchetKey keys _ _ => (ratchetKey, keys.counter) = name
  | _ => false

/-- How many requests there were since the last one that cached keys for a message. -/
def sinceInsertion (requests : List CacheRequest) (name : PublicKey × UInt32) : Nat :=
  requests.reverse.findIdx (·.inserts name)

theorem sinceInsertion_append_singleton (requests : List CacheRequest) (q : CacheRequest)
    (name : PublicKey × UInt32) : sinceInsertion (requests ++ [q]) name =
      if q.inserts name then 0 else sinceInsertion requests name + 1 := by
  rw [sinceInsertion, List.reverse_concat, List.findIdx_cons, sinceInsertion]
  cases q.inserts name <;> rfl

namespace SkippedKeys

/-- The cache after a request. -/
def serve (c : SkippedKeys) : CacheRequest → SkippedKeys
  | .insert ratchetKey keys storedAt capacity => (c.insert ratchetKey keys storedAt capacity).2
  | .take ratchetKey counter => ((c.take? ratchetKey counter).map Prod.snd).getD c
  | .purge ratchetKey => (c.purge ratchetKey).2
  | .prune cutoff => (c.prune cutoff).2

/-- The cache after a number of requests. -/
def serveAll (c : SkippedKeys) (requests : List CacheRequest) : SkippedKeys :=
  requests.foldl serve c

/-- An entry leaves at a request: newer keys of the same message take its place or newer keys
crowd it out, it is given out, its chain is dropped, or it is older than those that are kept. -/
def Leaves (c : SkippedKeys) (e : SkippedKey) : CacheRequest → Prop
  | .insert ratchetKey keys storedAt capacity =>
    (ratchetKey, keys.counter) = e.name ∨ e ∈ c.evicted ratchetKey keys storedAt capacity
  | .take ratchetKey counter => (ratchetKey, counter) = e.name
  | .purge ratchetKey => ratchetKey = e.ratchetKey
  | .prune cutoff => e.storedAt < cutoff

/-- An entry leaves at none of the requests that a cache serves. -/
def Stays (e : SkippedKey) : SkippedKeys → List CacheRequest → Prop
  | _, [] => True
  | c, q :: requests => ¬c.Leaves e q ∧ Stays e (c.serve q) requests

/-- An entry comes in with a request, and is not crowded out at once. -/
def Enters (c : SkippedKeys) (e : SkippedKey) (q : CacheRequest) : Prop :=
  ∃ capacity, q = .insert e.ratchetKey e.keys e.storedAt capacity ∧
    e ∉ c.evicted e.ratchetKey e.keys e.storedAt capacity

@[simp] theorem serveAll_append (c : SkippedKeys) (before after : List CacheRequest) :
    c.serveAll (before ++ after) = (c.serveAll before).serveAll after :=
  List.foldl_append

/-- An entry came in with one of the requests and left at none of those after it. -/
def Held (requests : List CacheRequest) (e : SkippedKey) : Prop :=
  ∃ before q after, requests = before ++ q :: after ∧
    (serveAll {} before).Enters e q ∧ Stays e (serveAll {} (before ++ [q])) after

/-- In a cache with distinct names exactly the entry of one name goes. -/
theorem Distinct.entries_erase {c : SkippedKeys} (h : c.Distinct) (r : PublicKey) (n : UInt32) :
    (c.erase r n).entries = c.entries.filter (·.name ≠ (r, n)) := by
  obtain ⟨entries⟩ := c
  simp only [Distinct, SkippedKeys.erase] at h ⊢
  induction entries with
  | nil => rfl
  | cons a rest ih =>
    rw [List.map_cons, List.nodup_cons] at h
    by_cases ha : a.name = (r, n)
    · have hrest : ∀ e ∈ rest, e.name ≠ (r, n) := fun e he heq =>
        h.1 (ha ▸ heq ▸ List.mem_map_of_mem he)
      rw [List.eraseP_cons, SkippedKey.isFor_iff.mpr ha, cond_true,
        List.filter_cons_of_neg (by simp [ha])]
      exact (List.filter_eq_self.mpr (by simpa using hrest)).symm
    · rw [List.eraseP_cons_of_neg (by simp [ha]), List.filter_cons_of_pos (by simp [ha]), ih h.2]

theorem serve_take (c : SkippedKeys) (r : PublicKey) (n : UInt32) :
    c.serve (.take r n) = c.erase r n := by
  rw [serve]
  rcases htake : c.take? r n with _ | ⟨keys, rest⟩
  · have hkept : c.entries.eraseP (·.isFor r n) = c.entries :=
      List.eraseP_of_forall_not (by simpa using take?_eq_none.mp htake)
    rw [erase, hkept]
    rfl
  · exact (take?_eq_some htake).2

theorem filled_eq_evicted_append (c : SkippedKeys) (r : PublicKey) (keys : MessageKeys)
    (storedAt : UInt64) (capacity : Nat) : c.filled r keys storedAt =
      c.evicted r keys storedAt capacity ++ (c.insert r keys storedAt capacity).2.entries := by
  rw [entries_insert, evicted, List.take_append_drop]

/-- The number that caching keys gives back is that of the entries crowded out. -/
theorem evicted_count (c : SkippedKeys) (r : PublicKey) (keys : MessageKeys) (storedAt : UInt64)
    (capacity : Nat) :
    (c.insert r keys storedAt capacity).1 = (c.evicted r keys storedAt capacity).length :=
  (List.length_take_of_le (Nat.sub_le _ _)).symm

theorem entries_purge (c : SkippedKeys) (r : PublicKey) :
    (c.purge r).2.entries = c.entries.filter (·.ratchetKey ≠ r) := by
  simp [purge, dropWhere]

theorem entries_prune (c : SkippedKeys) (cutoff : UInt64) :
    (c.prune cutoff).2.entries = c.entries.filter (cutoff ≤ ·.storedAt) :=
  List.filter_congr fun e _ => by simp only [← decide_not, UInt64.not_lt]

section Distinct

variable {c : SkippedKeys}

theorem Distinct.serve (h : c.Distinct) (q : CacheRequest) : (c.serve q).Distinct := by
  cases q with
  | insert r keys storedAt capacity => exact h.insert r keys storedAt capacity
  | take r n =>
    rw [serve_take]
    exact h.erase r n
  | purge r => exact h.sublist List.filter_sublist
  | prune cutoff => exact h.sublist List.filter_sublist

theorem Distinct.filled_eq (h : c.Distinct) (r : PublicKey) (keys : MessageKeys)
    (storedAt : UInt64) :
    c.filled r keys storedAt = c.entries.filter (·.name ≠ (r, keys.counter)) ++
      [⟨r, keys, storedAt⟩] := by
  rw [filled, h.entries_erase]

theorem Distinct.mem_filled (h : c.Distinct) {r : PublicKey} {keys : MessageKeys}
    {storedAt : UInt64} {e : SkippedKey} : e ∈ c.filled r keys storedAt ↔
      e ∈ c.entries ∧ e.name ≠ (r, keys.counter) ∨ e = ⟨r, keys, storedAt⟩ := by
  rw [h.filled_eq, List.mem_append, List.mem_filter, List.mem_singleton, decide_eq_true_iff]

theorem Distinct.nodup_filled (h : c.Distinct) (r : PublicKey) (keys : MessageKeys)
    (storedAt : UInt64) :
    (c.filled r keys storedAt).Nodup := by
  have hall := h.insert r keys storedAt (c.filled r keys storedAt).length
  rw [Distinct, entries_insert, Nat.sub_self, List.drop_zero] at hall
  exact hall.of_map

/-- Of the entries after keys are cached, those stay that are not crowded out. -/
theorem Distinct.mem_insert_iff (h : c.Distinct) {r : PublicKey} {keys : MessageKeys}
    {storedAt : UInt64} {capacity : Nat} {e : SkippedKey} :
    e ∈ (c.insert r keys storedAt capacity).2.entries ↔
      e ∈ c.filled r keys storedAt ∧ e ∉ c.evicted r keys storedAt capacity := by
  have hnodup := h.nodup_filled r keys storedAt
  rw [filled_eq_evicted_append c r keys storedAt capacity] at hnodup ⊢
  rw [List.mem_append]
  exact ⟨fun hin => ⟨.inr hin, fun hout => hnodup.disjoint hout hin⟩,
    fun ⟨hin, hout⟩ => hin.resolve_left hout⟩

/-- After a request an entry is there exactly if it was there and did not leave, or came in. -/
theorem Distinct.mem_serve (h : c.Distinct) {q : CacheRequest} {e : SkippedKey} :
    e ∈ (c.serve q).entries ↔ e ∈ c.entries ∧ ¬c.Leaves e q ∨ c.Enters e q := by
  cases q with
  | insert r keys storedAt capacity =>
    rw [SkippedKeys.serve, h.mem_insert_iff, h.mem_filled]
    constructor
    · rintro ⟨⟨hold, hne⟩ | rfl, hout⟩
      · exact .inl ⟨hold, not_or.mpr ⟨hne.symm, hout⟩⟩
      · exact .inr ⟨capacity, rfl, hout⟩
    · rintro (⟨hold, hstays⟩ | ⟨_, hq, hin⟩)
      · obtain ⟨hne, hout⟩ := not_or.mp hstays
        exact ⟨.inl ⟨hold, hne ∘ Eq.symm⟩, hout⟩
      · cases hq
        exact ⟨.inr rfl, hin⟩
  | take r n =>
    rw [serve_take, h.entries_erase, List.mem_filter, decide_eq_true_iff]
    simp only [Leaves, Enters, reduceCtorEq, false_and, exists_false, or_false,
      ne_comm (a := e.name), ne_eq]
  | purge r =>
    rw [SkippedKeys.serve, mem_purge]
    simp only [Leaves, Enters, reduceCtorEq, false_and, exists_false, or_false,
      ne_comm (a := e.ratchetKey), ne_eq]
  | prune cutoff =>
    rw [SkippedKeys.serve, mem_prune]
    simp only [Leaves, Enters, reduceCtorEq, false_and, exists_false, or_false]

/-- A request that caches no keys takes entries away and leaves the others in their order. -/
theorem serve_sublist (c : SkippedKeys) {q : CacheRequest} (hq : ∀ name, q.inserts name = false) :
    (c.serve q).entries.Sublist c.entries := by
  cases q with
  | insert r keys storedAt capacity => simpa [CacheRequest.inserts] using hq (r, keys.counter)
  | take r n =>
    rw [serve_take]
    exact List.eraseP_sublist
  | purge r => exact List.filter_sublist
  | prune cutoff => exact List.filter_sublist

end Distinct

theorem distinct_serveAll (requests : List CacheRequest) : (serveAll {} requests).Distinct := by
  induction requests using List.reverseRecOn with
  | nil => exact List.nodup_nil
  | append_singleton requests q ih =>
    rw [serveAll_append]
    exact ih.serve q

theorem stays_append_singleton (e : SkippedKey) (c : SkippedKeys) (requests : List CacheRequest)
    (q : CacheRequest) :
    Stays e c (requests ++ [q]) ↔ Stays e c requests ∧ ¬(c.serveAll requests).Leaves e q := by
  induction requests generalizing c with
  | nil => simp [Stays, serveAll]
  | cons p requests ih => rw [List.cons_append, Stays, ih, Stays, and_assoc]; rfl

/-- What a cache holds came in at some time and has not left since. -/
theorem mem_serveAll {requests : List CacheRequest} {e : SkippedKey} :
    e ∈ (serveAll {} requests).entries ↔ Held requests e := by
  unfold Held
  induction requests using List.reverseRecOn with
  | nil => simp [serveAll]
  | append_singleton requests q ih =>
    have hlast : serveAll {} (requests ++ [q]) = (serveAll {} requests).serve q :=
      serveAll_append _ _ _
    rw [hlast, (distinct_serveAll requests).mem_serve, ih]
    constructor
    · rintro (⟨⟨before, p, after, rfl, henters, hstays⟩, hleaves⟩ | henters)
      · refine ⟨before, p, after ++ [q], by simp, henters,
          (stays_append_singleton ..).mpr ⟨hstays, ?_⟩⟩
        rwa [← serveAll_append, List.append_assoc, List.singleton_append]
      · exact ⟨requests, q, [], rfl, henters, trivial⟩
    · rintro ⟨before, p, after, hsplit, henters, hstays⟩
      rcases List.eq_nil_or_concat after with rfl | ⟨after, last, rfl⟩
      · obtain ⟨rfl, hq⟩ := List.append_inj' hsplit rfl
        obtain rfl : q = p := (List.cons.inj hq).1
        exact .inr henters
      · have hlonger : requests ++ [q] = (before ++ p :: after) ++ [last] := by
          rw [hsplit, List.concat_eq_append, List.append_assoc, List.cons_append]
        obtain ⟨rfl, hq⟩ := List.append_inj' hlonger rfl
        obtain rfl : q = last := (List.cons.inj hq).1
        rw [List.concat_eq_append, stays_append_singleton, ← serveAll_append, List.append_assoc,
          List.singleton_append] at hstays
        exact .inl ⟨⟨before, p, after, rfl, henters, hstays.1⟩, hstays.2⟩

/-- Entries stand in the order in which their keys were last cached. -/
theorem ordered_serveAll (requests : List CacheRequest) :
    (serveAll {} requests).entries.Pairwise fun e f =>
    sinceInsertion requests f.name < sinceInsertion requests e.name := by
  induction requests using List.reverseRecOn with
  | nil => exact List.Pairwise.nil
  | append_singleton requests q ih =>
    have hlast : serveAll {} (requests ++ [q]) = (serveAll {} requests).serve q :=
      serveAll_append _ _ _
    have hdistinct := distinct_serveAll requests
    rw [hlast]
    simp only [sinceInsertion_append_singleton]
    by_cases hq : ∀ name, q.inserts name = false
    · refine (ih.imp fun {e f} hlt => ?_).sublist (serve_sublist _ hq)
      rw [hq, hq]
      exact Nat.succ_lt_succ hlt
    · cases q with
      | insert r keys storedAt capacity =>
        -- Older entries have other names, so they count on from where they were; the new
        -- one starts at 0.
        have hother : ∀ e : SkippedKey, e.name ≠ (r, keys.counter) →
            (CacheRequest.insert r keys storedAt capacity).inserts e.name = false := fun e hne => by
          simpa [CacheRequest.inserts] using hne.symm
        refine List.Pairwise.sublist (List.drop_sublist _ _) ?_
        change List.Pairwise _ (SkippedKeys.filled _ r keys storedAt)
        rw [hdistinct.filled_eq, List.pairwise_append]
        refine ⟨List.pairwise_filter.mpr (ih.imp fun {e f} hlt he hf => ?_),
          List.pairwise_singleton _ _, ?_⟩
        · rw [hother e (by simpa using he), hother f (by simpa using hf)]
          exact Nat.succ_lt_succ hlt
        · intro e he f hf
          obtain rfl := List.mem_singleton.mp hf
          rw [hother e (by simpa using (List.mem_filter.mp he).2)]
          simp [CacheRequest.inserts, SkippedKey.name]
      | take r n => exact absurd (fun _ => rfl) hq
      | purge r => exact absurd (fun _ => rfl) hq
      | prune cutoff => exact absurd (fun _ => rfl) hq

/-- In a cache with distinct names the keys of a message are those of its entry, which
alone leaves. -/
theorem Distinct.take?_iff {c c' : SkippedKeys} (h : c.Distinct) {r : PublicKey} {n : UInt32}
    {keys : MessageKeys} : c.take? r n = some (keys, c') ↔
      (∃ e ∈ c.entries, e.name = (r, n) ∧ e.keys = keys) ∧
      c'.entries = c.entries.filter (·.name ≠ (r, n)) := by
  constructor
  · intro htake
    obtain ⟨hentry, rfl⟩ := take?_eq_some htake
    exact ⟨hentry, h.entries_erase r n⟩
  · rintro ⟨⟨e, he, hname, rfl⟩, hrest⟩
    rcases htake : c.take? r n with _ | ⟨keys, rest⟩
    · exact absurd hname (take?_eq_none.mp htake e he)
    · obtain ⟨⟨f, hf, hfname, rfl⟩, rfl⟩ := take?_eq_some htake
      have hsame : e = f := List.inj_on_of_nodup_map h he hf (hname.trans hfname.symm)
      have herased : c' = c.erase r n :=
        congrArg SkippedKeys.mk (hrest.trans (h.entries_erase r n).symm)
      rw [hsame, herased]

/-- Whatever a new cache was asked for: there is one entry for each message, and
entries stand in the order in which their keys were last cached. Caching keys puts
them last in place of older ones of the same message, crowds out the oldest entries
beyond the capacity and counts these. The keys of a message are given out exactly if
the last ones cached for it have not been crowded out, given out or dropped since, and
then leave. Dropping a chain or the keys before a time takes the matching entries
away, counts them and keeps the others in their order. -/
theorem bounded_ordered_map (requests : List CacheRequest) :
    let c := serveAll {} requests
    c.Distinct ∧
    (c.entries.Pairwise fun e f =>
      sinceInsertion requests f.name < sinceInsertion requests e.name) ∧
    (∀ ratchetKey keys storedAt capacity,
      let (gone, c') := c.insert ratchetKey keys storedAt capacity
      c'.size ≤ capacity ∧ gone = (c.evicted ratchetKey keys storedAt capacity).length ∧
      gone = ((c.entries.filter (·.name ≠ (ratchetKey, keys.counter))).length + 1) - capacity ∧
      c.evicted ratchetKey keys storedAt capacity ++ c'.entries =
        c.entries.filter (·.name ≠ (ratchetKey, keys.counter)) ++ [⟨ratchetKey, keys, storedAt⟩]) ∧
    (∀ ratchetKey counter keys c', c.take? ratchetKey counter = some (keys, c') ↔
      (∃ e, Held requests e ∧ e.name = (ratchetKey, counter) ∧ e.keys = keys) ∧
        c'.entries = c.entries.filter (·.name ≠ (ratchetKey, counter))) ∧
    (∀ ratchetKey, (c.purge ratchetKey).2.entries = c.entries.filter (·.ratchetKey ≠ ratchetKey) ∧
      (c.purge ratchetKey).1 = (c.entries.filter (·.ratchetKey = ratchetKey)).length) ∧
    (∀ cutoff, (c.prune cutoff).2.entries = c.entries.filter (cutoff ≤ ·.storedAt) ∧
      (c.prune cutoff).1 = (c.entries.filter (·.storedAt < cutoff)).length) := by
  intro c
  have hdistinct : c.Distinct := distinct_serveAll requests
  refine ⟨hdistinct, ordered_serveAll requests, ?_, ?_, ?_, ?_⟩
  · intro r keys storedAt capacity
    refine ⟨size_insert_le .., evicted_count .., ?_, ?_⟩
    · change (c.filled r keys storedAt).length - capacity = _
      rw [hdistinct.filled_eq, List.length_append, List.length_singleton]
    · rw [← hdistinct.filled_eq]
      exact (filled_eq_evicted_append ..).symm
  · intro r n keys c'
    simp only [hdistinct.take?_iff, ← mem_serveAll]
    rfl
  · exact fun r => ⟨entries_purge c r, List.countP_eq_length_filter⟩
  · exact fun cutoff => ⟨entries_prune c cutoff, List.countP_eq_length_filter⟩

end SkippedKeys

end DoubleRatchet
