import DoubleRatchet.Session.Fault

/-!
# Bounds of the session engine

None of the bounds is negotiated: the two parties of a session may run with
different ones.
-/
namespace DoubleRatchet

structure Config where
  /-- Cached message keys per session state. -/
  maxSkippedKeys : Nat := 2000
  /-- How far a message may be ahead of its chain. -/
  maxForwardJump : UInt32 := 2000
  /-- Receiver chains per session state. -/
  maxReceiverChains : Nat := 5
  /-- Earlier session states per record. -/
  maxArchivedStates : Nat := 40
  /-- Seconds after which a cached message key is dropped, if ever. -/
  skippedKeyMaxAge : Option UInt64 := none
deriving DecidableEq, Inhabited

/-- Whether the bounds fit together: a receiver chain is needed, and a jump
must not evict the keys it caches. -/
def Config.validate (c : Config) : Except SessionFault Unit :=
  if c.maxReceiverChains = 0 then .error (.invalidState .noReceiverChainAllowed)
  else if c.maxSkippedKeys < c.maxForwardJump.toNat then .error (.invalidState .cacheBelowJump)
  else .ok ()

end DoubleRatchet
