import DoubleRatchet.Cipher.Keyed
import DoubleRatchet.Locks
import DoubleRatchet.Main
import DoubleRatchet.Sealed.Engine
import DoubleRatchet.Proofs.Conversation.Delivery
import DoubleRatchet.Proofs.Engine.AtMostOnce
import DoubleRatchet.Proofs.Engine.Counters
import DoubleRatchet.Proofs.Engine.Expiry
import DoubleRatchet.Proofs.Engine.Faults
import DoubleRatchet.Proofs.Engine.Isolation
import DoubleRatchet.Proofs.Engine.Leftovers
import DoubleRatchet.Proofs.Engine.Readers
import DoubleRatchet.Proofs.Engine.Records
import DoubleRatchet.Proofs.Engine.SendingKeys
import DoubleRatchet.Proofs.Engine.WellKept
import DoubleRatchet.Proofs.Sealed.Atomicity
import DoubleRatchet.Proofs.Sealed.Attribution
import DoubleRatchet.Proofs.Sealed.Introduction
import DoubleRatchet.Proofs.Sealed.Refusals
import DoubleRatchet.Proofs.Sealed.RoundTrip
import DoubleRatchet.Proofs.Sealed.Sending
import DoubleRatchet.Proofs.Sealed.SingleUse
import DoubleRatchet.Proofs.Sealed.Vouching
import DoubleRatchet.Proofs.Session.CacheHistory
import DoubleRatchet.Proofs.Session.Persistence
import DoubleRatchet.Proofs.Simulation.Clean
import DoubleRatchet.Proofs.Store.Snapshot
import DoubleRatchet.Proofs.Wire.Stream
import DoubleRatchet.Proofs.Workspace.Replenishing
