import DoubleRatchet.Session.Fault
import DoubleRatchet.Session.SkippedKeys

/-!
# Session states

The state of one session with one peer device: one sender chain, receiver
chains in the order of their arrival, and cached keys of skipped messages. When
a receiver chain is dropped its cached keys go with it.
-/
namespace DoubleRatchet

structure SenderChain where
  keyPair : KeyPair
  chain : ChainKey
deriving DecidableEq

structure ReceiverChain where
  ratchetKey : PublicKey
  chain : ChainKey
deriving DecidableEq

/-- What every message repeats until the peer answers, so that it can build its side. -/
structure PendingPreKey where
  preKeyId : Option UInt32
  signedPreKeyId : UInt32
  baseKey : PublicKey
deriving DecidableEq

def SenderChain.codec : Codec SenderChain :=
  (KeyPair.codec.both ChainKey.codec).view (fun p => ⟨p.1, p.2⟩) fun c => (c.keyPair, c.chain)

def ReceiverChain.codec : Codec ReceiverChain :=
  (PublicKey.codec.both ChainKey.codec).view (fun p => ⟨p.1, p.2⟩) fun c => (c.ratchetKey, c.chain)

def PendingPreKey.codec : Codec PendingPreKey :=
  (Codec.uint32.option.both <| Codec.uint32.both PublicKey.codec).view (fun (p, s, b) => ⟨p, s, b⟩)
    fun p => (p.preKeyId, p.signedPreKeyId, p.baseKey)

structure State where
  version : UInt8
  localIdentity : PublicKey
  remoteIdentity : PublicKey
  rootKey : RootKey
  previousCounter : UInt32 := 0
  sender : SenderChain
  /-- Receiver chains, oldest first. -/
  receivers : List ReceiverChain := []
  skipped : SkippedKeys := {}
  pending : Option PendingPreKey := none
  localRegistrationId : UInt32 := 0
  remoteRegistrationId : UInt32 := 0
  /-- The initiator's base key, which names the session. -/
  baseKey : PublicKey
deriving DecidableEq

namespace State

def senderRatchetKey (s : State) : PublicKey := s.sender.keyPair.publicKey

/-- The chain of a ratchet key, the oldest if there are several. -/
def receiverChain? (s : State) (ratchetKey : PublicKey) : Option ChainKey :=
  (s.receivers.find? (·.ratchetKey = ratchetKey)).map ReceiverChain.chain

def hasReceiverChain (s : State) (ratchetKey : PublicKey) : Bool :=
  (s.receiverChain? ratchetKey).isSome

/-- Appends a receiver chain, without a bound. -/
def withReceiverChain (s : State) (ratchetKey : PublicKey) (chain : ChainKey) : State :=
  { s with receivers := s.receivers ++ [⟨ratchetKey, chain⟩] }

/-- Drops the oldest receiver chains beyond a bound of at least one, and the
keys cached for them; also gives the ratchet keys dropped. -/
def trimReceivers (s : State) (bound : Nat) : List PublicKey × State :=
  let excess := s.receivers.length - max bound 1
  let evicted := (s.receivers.take excess).map ReceiverChain.ratchetKey
  (evicted, { s with
    receivers := s.receivers.drop excess
    skipped := evicted.foldl (fun c key => (c.purge key).2) s.skipped })

/-- Appends a receiver chain within a bound; also gives the ratchet keys evicted. -/
def addReceiverChain (s : State) (ratchetKey : PublicKey) (chain : ChainKey) (bound : Nat) :
    List PublicKey × State :=
  (s.withReceiverChain ratchetKey chain).trimReceivers bound

/-- Sets the chain key of the oldest chain of a ratchet key. -/
def setReceiver (ratchetKey : PublicKey) (chain : ChainKey) :
    List ReceiverChain → Option (List ReceiverChain)
  | [] => none
  | r :: rs =>
    if r.ratchetKey = ratchetKey then some (⟨r.ratchetKey, chain⟩ :: rs)
    else (setReceiver ratchetKey chain rs).map (r :: ·)

def setReceiverChain (s : State) (ratchetKey : PublicKey)
    (chain : ChainKey) : Except SessionFault State :=
  match setReceiver ratchetKey chain s.receivers with
  | some receivers => .ok { s with receivers }
  | none => .error (.invalidState .noReceiverChain)

/-- Caches message keys; also counts the entries evicted for them. -/
def cacheKeys (s : State) (ratchetKey : PublicKey) (keys : MessageKeys) (storedAt : UInt64)
    (capacity : Nat) : Nat × State :=
  let (evicted, skipped) := s.skipped.insert ratchetKey keys storedAt capacity
  (evicted, { s with skipped })

def takeKeys? (s : State) (ratchetKey : PublicKey)
    (counter : UInt32) : Option (MessageKeys × State) :=
  (s.skipped.take? ratchetKey counter).map fun (keys, skipped) => (keys, { s with skipped })

/-- Drops the keys cached before a time; also counts them. -/
def pruneSkipped (s : State) (cutoff : UInt64) : Nat × State :=
  let (dropped, skipped) := s.skipped.prune cutoff
  (dropped, { s with skipped })

def setSenderChain (s : State) (chain : ChainKey) : State :=
  { s with sender := ⟨s.sender.keyPair, chain⟩ }

/-- A short form for display. -/
def describe (s : State) : String :=
  "SessionState \x7b version: " ++ toString s.version.toNat ++
    ", sender_ratchet_key: PublicKey(" ++ s.senderRatchetKey.fingerprint ++
    "), sender_index: " ++ toString s.sender.chain.index.toNat ++
    ", receiver_chains: " ++ toString s.receivers.length ++
    ", skipped_keys: " ++ toString s.skipped.size ++
    ", pending_pre_key: " ++ (if s.pending.isSome then "true" else "false") ++ " \x7d"

def codec : Codec State :=
  (Codec.byte.both <| PublicKey.codec.both <| PublicKey.codec.both <| RootKey.codec.both <|
    Codec.uint32.both <| SenderChain.codec.both <| ReceiverChain.codec.list.both <|
      SkippedKeys.codec.both <|
    PendingPreKey.codec.option.both <| Codec.uint32.both <| Codec.uint32.both PublicKey.codec).view
    (fun (v, l, r, k, c, s, rs, sk, p, lr, rr, b) => ⟨v, l, r, k, c, s, rs, sk, p, lr, rr, b⟩)
    fun s => (s.version, s.localIdentity, s.remoteIdentity, s.rootKey, s.previousCounter, s.sender,
      s.receivers, s.skipped, s.pending, s.localRegistrationId, s.remoteRegistrationId, s.baseKey)

end State

end DoubleRatchet
