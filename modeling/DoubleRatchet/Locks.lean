import DoubleRatchet.Address

/-!
# Locks of peer devices

One lock for each peer device, made when it is first asked for. A lock that was
removed is not used again: a later one for the same device is another lock.
-/
namespace DoubleRatchet

/-- The locks in use, by the order in which locks were made. -/
structure Locks where
  table : Table Address Nat := .empty
  made : Nat := 0

namespace Locks

/-- The lock of a peer device. -/
def lockFor (l : Locks) (peer : Address) : Nat × Locks :=
  match l.table.get? peer with
  | some lock => (lock, l)
  | none => (l.made, ⟨l.table.insert peer l.made, l.made + 1⟩)

/-- Does something while holding the lock of a peer device. -/
def withLock {α : Type} (l : Locks) (peer : Address) (f : Nat → α) : α × Locks :=
  let (lock, l) := l.lockFor peer
  (f lock, l)

def remove (l : Locks) (peer : Address) : Locks := { l with table := l.table.erase peer }

def size (l : Locks) : Nat := l.table.size

end Locks

end DoubleRatchet
