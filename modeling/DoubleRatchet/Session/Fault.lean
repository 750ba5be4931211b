import DoubleRatchet.Address
import DoubleRatchet.KeyFault
import DoubleRatchet.Wire.Fault

/-!
# Faults of the session engine

Faults are of two classes, by what the caller has to do: after a message fault
the one message is dropped and the session goes on; after a session fault the
session or the peer's identity needs attention first.
-/
namespace DoubleRatchet

/-- Fatal for one message. -/
inductive MessageFault
  /-- A malformed encoding, a wrong tag or bad padding, without saying which. -/
  | invalid
  | duplicate (chainIndex counter : UInt32)
  | tooManySkipped (counter jump limit : UInt32)
  | unknownPreKey (id : UInt32)
  | unknownSignedPreKey (id : UInt32)
deriving DecidableEq

/-- Why a state or a set of bounds does not allow an operation. -/
inductive StateFault
  | noReceiverChain
  | archivedIndexOutOfRange
  | senderChainExhausted
  | decryptedWithoutCurrent
  | preKeyIdsExhausted
  | signedPreKeyIdsExhausted
  | noSignedPreKey
  | noReceiverChainAllowed
  | cacheBelowJump
deriving DecidableEq

/-- Why stored bytes are not a session record. -/
inductive RecordFault
  | empty
  | unknownFormat (format : UInt8)
  | malformed
deriving DecidableEq

/-- Fatal for the session. -/
inductive SessionFault
  | noSession (peer : Address)
  | untrustedIdentity (peer : Address)
  | unsupportedVersion (version : UInt8)
  | invalidKey (fault : KeyFault)
  | badSignature
  | invalidState (fault : StateFault)
  | store (fault : RecordFault)
deriving DecidableEq

inductive SessionError
  | message (fault : MessageFault)
  | session (fault : SessionFault)
deriving DecidableEq

namespace MessageFault

/-- The name of the fault for other programs. -/
def code : MessageFault → String
  | invalid => "InvalidMessage"
  | duplicate .. => "DuplicateMessage"
  | tooManySkipped .. => "TooManySkippedMessages"
  | unknownPreKey _ => "InvalidPreKeyId"
  | unknownSignedPreKey _ => "InvalidSignedPreKeyId"

def message : MessageFault → String
  | invalid => "invalid message"
  | duplicate chainIndex counter =>
    s!"duplicate message: chain is at index {chainIndex}, counter {counter} already used"
  | tooManySkipped counter jump limit =>
    s!"message counter {counter} is {jump} ahead of its chain (limit {limit})"
  | unknownPreKey id => s!"unknown pre-key id {id}"
  | unknownSignedPreKey id => s!"unknown signed pre-key id {id}"

end MessageFault

namespace StateFault

def message : StateFault → String
  | noReceiverChain => "no receiver chain for ratchet key"
  | archivedIndexOutOfRange => "archived session index out of range"
  | senderChainExhausted => "sender chain exhausted"
  | decryptedWithoutCurrent => "decrypted without a current state"
  | preKeyIdsExhausted => "pre-key ids exhausted"
  | signedPreKeyIdsExhausted => "signed pre-key ids exhausted"
  | noSignedPreKey => "no signed pre-key generated"
  | noReceiverChainAllowed => "max_receiver_chains must be at least 1"
  | cacheBelowJump => "max_skipped_keys must cover max_forward_jump"

end StateFault

namespace RecordFault

def message : RecordFault → String
  | empty => "empty session record"
  | unknownFormat format => s!"unknown session record format {format}"
  | malformed => "record decoding failed"

end RecordFault

namespace SessionFault

/-- The name of the fault for other programs. -/
def code : SessionFault → String
  | noSession _ => "NoSession"
  | untrustedIdentity _ => "UntrustedIdentity"
  | unsupportedVersion _ => "UnsupportedVersion"
  | invalidKey _ => "InvalidKey"
  | badSignature => "SignatureValidationFailed"
  | invalidState _ => "InvalidState"
  | store _ => "Store"

def message : SessionFault → String
  | noSession peer => "no session with " ++ peer.render
  | untrustedIdentity peer => "untrusted identity key for " ++ peer.render
  | unsupportedVersion version => s!"unsupported protocol version {version}"
  | invalidKey fault => "invalid key material: " ++ fault.message
  | badSignature => "signed pre-key signature did not verify"
  | invalidState fault => "invalid session state: " ++ fault.message
  | store fault => "store failure: " ++ fault.message

end SessionFault

namespace SessionError

/-- Whether only the one message is lost. -/
def isMessageFatal : SessionError → Bool
  | message _ => true
  | session _ => false

/-- Whether the session cannot be used as it is. -/
def isSessionFatal (e : SessionError) : Bool := !e.isMessageFatal

/-- The class and the name of the fault for other programs. -/
def code : SessionError → String
  | message fault => "Message." ++ fault.code
  | session fault => "Session." ++ fault.code

def render : SessionError → String
  | message fault => "message rejected: " ++ fault.message
  | session fault => "session unusable: " ++ fault.message

def ofKey (fault : KeyFault) : SessionError := session (.invalidKey fault)

/-- A version this side does not speak concerns the session, all else the message only. -/
def ofWire : WireFault → SessionError
  | .legacyVersion version | .unrecognizedVersion version => session (.unsupportedVersion version)
  | _ => message .invalid

end SessionError

end DoubleRatchet
