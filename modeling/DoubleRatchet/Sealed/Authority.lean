import DoubleRatchet.Entropy
import DoubleRatchet.Sealed.Fault

/-!
# Issuing and checking certificates

A trust root signs server keys, and server keys sign senders. A sender
certificate is accepted when both signatures are good and it has not expired.
-/
namespace DoubleRatchet

variable [Suite]

/-- A server key signed by the trust root. -/
def ServerCertificate.issue (root : PrivateKey) (keyId : UInt32) (key : PublicKey) :
    Draw (Except WireFault ServerCertificate) := do
  let content := ServerCertificate.content keyId key
  return ofSigned content (← Draw.signature root content).toList

/-- A sender's identity key signed with the key of a server, until `expires` in unix
milliseconds. -/
def SenderCertificate.issue (signer : ServerCertificate) (signingKey : PrivateKey)
    (sender : Address) (identityKey : PublicKey) (expires : UInt64) :
    Draw (Except WireFault SenderCertificate) := do
  let content := SenderCertificate.content sender expires identityKey signer
  return ofSigned content (← Draw.signature signingKey content).toList

/-- Checks a sender certificate against a trust root, at a time in unix milliseconds. -/
def SenderCertificate.validate (c : SenderCertificate) (root : PublicKey) (time : UInt64) :
    Except CertificateFault Unit :=
  if !root.verifies c.signer.certificate c.signer.signature then .error .serverNotSigned
  else if !c.signer.key.verifies c.certificate c.signature then .error .senderNotSigned
  else if c.expires < time then .error .expired
  else .ok ()

end DoubleRatchet
