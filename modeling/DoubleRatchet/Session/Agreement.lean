import DoubleRatchet.Session.Record
import DoubleRatchet.Wire.Message

/-!
# Agreement on a session

The initiator knows the responder's published keys; the responder learns the
initiator's identity and base key from the first message. Both derive one root
key and one first chain from three or four agreements, and the initiator at
once ratchets on to a key of its own.
-/
namespace DoubleRatchet

variable [Suite]

/-- The first root key and chain from the outputs of the agreements, behind 32 bytes of 0xff. -/
def deriveRoot (secrets : List (Octets 32)) : RootKey × ChainKey :=
  let material := List.replicate 32 0xff ++ secrets.flatMap Octets.toList
  RootKey.split (Hkdf.derive [] material (utf8 "WhisperText") 64)

/-- What the initiator puts in. -/
structure Initiator where
  identity : KeyPair
  base : KeyPair
  theirIdentity : PublicKey
  theirSignedPreKey : PublicKey
  theirOneTimePreKey : Option PublicKey
  theirRatchetKey : PublicKey

/-- The initiator's state, with a new key pair for its sender chain. -/
def Initiator.state (p : Initiator) (sending : KeyPair) : Except KeyFault State := do
  let first ← p.identity.privateKey.agree p.theirSignedPreKey
  let second ← p.base.privateKey.agree p.theirIdentity
  let third ← p.base.privateKey.agree p.theirSignedPreKey
  let fourth ← p.theirOneTimePreKey.mapM p.base.privateKey.agree
  let (root, chain) := deriveRoot ([first, second, third] ++ fourth.toList)
  let (sendingRoot, sendingChain) ← root.createChain p.theirRatchetKey sending.privateKey
  return {
    version := currentVersion
    localIdentity := p.identity.publicKey
    remoteIdentity := p.theirIdentity
    rootKey := sendingRoot
    sender := ⟨sending, sendingChain⟩
    receivers := [⟨p.theirRatchetKey, chain⟩]
    baseKey := p.base.publicKey }

/-- What the responder puts in. -/
structure Responder where
  identity : KeyPair
  signedPreKey : KeyPair
  oneTimePreKey : Option KeyPair
  ratchet : KeyPair
  theirIdentity : PublicKey
  theirBaseKey : PublicKey

/-- The responder's state, sending on its ratchet pair. -/
def Responder.state (p : Responder) : Except KeyFault State := do
  let first ← p.signedPreKey.privateKey.agree p.theirIdentity
  let second ← p.identity.privateKey.agree p.theirBaseKey
  let third ← p.signedPreKey.privateKey.agree p.theirBaseKey
  let fourth ← p.oneTimePreKey.mapM (·.privateKey.agree p.theirBaseKey)
  let (root, chain) := deriveRoot ([first, second, third] ++ fourth.toList)
  return {
    version := currentVersion
    localIdentity := p.identity.publicKey
    remoteIdentity := p.theirIdentity
    rootKey := root
    sender := ⟨p.ratchet, chain⟩
    baseKey := p.theirBaseKey }

end DoubleRatchet
