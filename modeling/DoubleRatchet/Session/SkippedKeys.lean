import DoubleRatchet.Session.Codecs

/-!
# Cached message keys

Keys derived ahead of time for messages that have not arrived yet, in the order
in which they were cached. There is one entry for each ratchet key and counter;
putting in more entries than the capacity evicts the oldest ones.
-/
namespace DoubleRatchet

structure SkippedKey where
  ratchetKey : PublicKey
  keys : MessageKeys
  /-- Unix seconds at which the keys were cached. -/
  storedAt : UInt64
deriving DecidableEq

/-- The cache, oldest entry first. -/
structure SkippedKeys where
  entries : List SkippedKey := []
deriving DecidableEq, Inhabited

/-- Whether an entry is for the message at a counter of a chain. -/
def SkippedKey.isFor (e : SkippedKey) (ratchetKey : PublicKey) (counter : UInt32) : Bool :=
  e.keys.counter = counter && e.ratchetKey = ratchetKey

def SkippedKey.codec : Codec SkippedKey :=
  (PublicKey.codec.both <| MessageKeys.codec.both Codec.uint64).view
    (fun (r, k, t) => ⟨r, k, t⟩) fun e => (e.ratchetKey, e.keys, e.storedAt)

namespace SkippedKeys

def size (c : SkippedKeys) : Nat := c.entries.length

def isEmpty (c : SkippedKeys) : Bool := c.entries.isEmpty

def contains (c : SkippedKeys) (ratchetKey : PublicKey) (counter : UInt32) : Bool :=
  c.entries.any (·.isFor ratchetKey counter)

/-- Without the entry for one message. -/
def erase (c : SkippedKeys) (ratchetKey : PublicKey) (counter : UInt32) : SkippedKeys :=
  ⟨c.entries.eraseP (·.isFor ratchetKey counter)⟩

/-- Keeps the newest entries up to a capacity; also counts those that go. -/
def trim (c : SkippedKeys) (capacity : Nat) : Nat × SkippedKeys :=
  let evicted := c.entries.length - capacity
  (evicted, ⟨c.entries.drop evicted⟩)

/-- Caches keys as the newest entry; also counts the entries evicted for it. -/
def insert (c : SkippedKeys) (ratchetKey : PublicKey) (keys : MessageKeys) (storedAt : UInt64)
    (capacity : Nat) : Nat × SkippedKeys :=
  trim ⟨(c.erase ratchetKey keys.counter).entries ++ [⟨ratchetKey, keys, storedAt⟩]⟩ capacity

/-- The keys of one message, which leave the cache. -/
def take? (c : SkippedKeys) (ratchetKey : PublicKey)
    (counter : UInt32) : Option (MessageKeys × SkippedKeys) :=
  (c.entries.find? (·.isFor ratchetKey counter)).map fun e => (e.keys, c.erase ratchetKey counter)

/-- Drops the entries with a property; also counts them. -/
def dropWhere (c : SkippedKeys) (p : SkippedKey → Bool) : Nat × SkippedKeys :=
  (c.entries.countP p, ⟨c.entries.filter (!p ·)⟩)

/-- Drops the keys of one chain; also counts them. -/
def purge (c : SkippedKeys) (ratchetKey : PublicKey) : Nat × SkippedKeys :=
  c.dropWhere (·.ratchetKey = ratchetKey)

/-- Drops the keys cached before a time; also counts them. -/
def prune (c : SkippedKeys) (cutoff : UInt64) : Nat × SkippedKeys :=
  c.dropWhere (·.storedAt < cutoff)

/-- The counters cached for one chain, oldest first. -/
def counters (c : SkippedKeys) (ratchetKey : PublicKey) : List UInt32 :=
  (c.entries.filter (·.ratchetKey = ratchetKey)).map (·.keys.counter)

def codec : Codec SkippedKeys := SkippedKey.codec.list.view SkippedKeys.mk SkippedKeys.entries

theorem size_trim_le (c : SkippedKeys) (capacity : Nat) : (c.trim capacity).2.size ≤ capacity := by
  simp [trim, size]; omega

theorem size_insert_le (c : SkippedKeys) (ratchetKey : PublicKey) (keys : MessageKeys)
    (storedAt : UInt64) (capacity : Nat) :
    (c.insert ratchetKey keys storedAt capacity).2.size ≤ capacity :=
  size_trim_le _ _

end SkippedKeys

end DoubleRatchet
