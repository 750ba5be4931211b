import DoubleRatchet.Table
import DoubleRatchet.Wire.Compact

/-!
# Addresses

One device of one party. Addresses are ordered by name, as byte strings, and
then by device.
-/
namespace DoubleRatchet

structure Address where
  name : String
  device : UInt32
deriving DecidableEq, Inhabited

namespace Address

instance : Ord Address := ⟨compareLex (compareOn name) (compareOn device)⟩

instance : Std.TransOrd Address :=
  inferInstanceAs (Std.TransCmp (compareLex (compareOn name) (compareOn device)))

instance : Std.LawfulEqOrd Address where
  eq_of_compare {a b} h := by
    have h' : (compareOn name a b).then (compareOn device a b) = .eq := h
    rw [Ordering.then_eq_eq] at h'
    have hn : a.name = b.name := Std.LawfulEqCmp.eq_of_compare h'.1
    have hd : a.device = b.device := Std.LawfulEqCmp.eq_of_compare h'.2
    cases a; cases b; simp_all

/-- The name and the device with a point between. -/
def render (a : Address) : String := s!"{a.name}.{a.device}"

def codec : Codec Address :=
  (Codec.text.both Codec.uint32).view (fun p => ⟨p.1, p.2⟩) fun a => (a.name, a.device)

end Address

end DoubleRatchet
