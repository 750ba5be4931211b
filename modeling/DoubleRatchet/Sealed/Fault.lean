import DoubleRatchet.Session.Fault
import DoubleRatchet.Wire.Sealed

/-!
# Faults of sealed messages
-/
namespace DoubleRatchet

/-- Why a sender certificate is not accepted. -/
inductive CertificateFault
  | serverNotSigned
  | senderNotSigned
  | expired
deriving DecidableEq

/-- Whatever goes wrong once the certificate has been read names the sender. -/
inductive SealedError
  | invalid
  | unsupportedVersion (version : UInt8)
  | selfSend
  | senderKeyMismatch
  | invalidCertificate (fault : CertificateFault)
  | unknownRecipient (peer : Address)
  | knownSender (sender : Address) (kind : SealedKind) (source : SealedError)
  | session (error : SessionError)
deriving DecidableEq

def CertificateFault.message : CertificateFault → String
  | serverNotSigned => "server certificate not signed by trust root"
  | senderNotSigned => "bad sender certificate signature"
  | expired => "sender certificate expired"

namespace SealedError

/-- The name of the fault for other programs. -/
def code : SealedError → String
  | invalid => "InvalidMessage"
  | unsupportedVersion _ => "UnsupportedVersion"
  | selfSend => "SelfSend"
  | senderKeyMismatch => "SenderKeyMismatch"
  | invalidCertificate _ => "InvalidCertificate"
  | unknownRecipient _ => "UnknownRecipientIdentity"
  | knownSender .. => "KnownSender"
  | session error => error.code

def message : SealedError → String
  | invalid => "invalid sealed message"
  | unsupportedVersion version => s!"unsupported sealed sender version {version}"
  | selfSend => "discarding self-sent message"
  | senderKeyMismatch => "sender certificate does not match the sealed identity key"
  | invalidCertificate fault => "invalid sender certificate: " ++ fault.message
  | unknownRecipient peer => "no identity key known for " ++ peer.render
  | knownSender sender kind source =>
    "sealed " ++ kind.name ++ " message from " ++ sender.render ++ " rejected: " ++ source.message
  | session error => error.render

/-- The cause without the name of the sender. -/
def inner : SealedError → SealedError
  | knownSender _ _ source => source.inner
  | other => other

def ofKey (fault : KeyFault) : SealedError := session (.ofKey fault)

/-- A version of the layout that is not known is told apart; all else is an invalid message. -/
def ofWire : WireFault → SealedError
  | .unrecognizedSealedVersion version => unsupportedVersion version
  | _ => invalid

end SealedError

end DoubleRatchet
