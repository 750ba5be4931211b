/-!
# Faults of the key primitives
-/
namespace DoubleRatchet

/-- Why a key primitive refuses its input. -/
inductive KeyFault
  | publicKeyLength
  | privateKeyLength
  | wireForm
  | mismatchedHalves
  | lowOrder
  | outputTooLong (requested limit : Nat)
  | cipherInput
deriving DecidableEq

namespace KeyFault

/-- The name of the fault for other programs. -/
def code : KeyFault → String
  | outputTooLong .. => "InvalidLength"
  | cipherInput => "InvalidCipherInput"
  | _ => "InvalidKey"

def message : KeyFault → String
  | publicKeyLength => "invalid key: public key must be 32 bytes"
  | privateKeyLength => "invalid key: private key must be 32 bytes"
  | wireForm => "invalid key: bad serialized public key"
  | mismatchedHalves => "invalid key: public key does not match private key"
  | lowOrder => "invalid key: low-order public key"
  | outputTooLong requested limit =>
    s!"requested {requested} bytes of key material, at most {limit} available"
  | cipherInput => "invalid cipher input"

end KeyFault

end DoubleRatchet
