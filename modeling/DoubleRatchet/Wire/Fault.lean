/-!
# Faults of the wire formats
-/
namespace DoubleRatchet

/-- Why bytes are refused by a reader, or a value by a writer. -/
inductive WireFault
  | messageTooShort (expected got : Nat)
  | legacyVersion (version : UInt8)
  | unrecognizedVersion (version : UInt8)
  | unknownMessageType (type : UInt8)
  | unknownSealedType (type : UInt32)
  | unrecognizedSealedVersion (version : UInt8)
  | envelopeTooLarge (length : Nat)
  | malformedFields
  | missingField (field : String)
  | badKeyEncoding (detail : String)
  | malformedRecord
deriving DecidableEq

namespace WireFault

/-- Whether the fault is a version that this side does not speak. -/
def isVersionFault : WireFault → Bool
  | legacyVersion _ | unrecognizedVersion _ => true
  | _ => false

/-- The name of the fault for other programs. -/
def code : WireFault → String
  | messageTooShort .. => "MessageTooShort"
  | legacyVersion _ => "LegacyCiphertextVersion"
  | unrecognizedVersion _ => "UnrecognizedCiphertextVersion"
  | unknownMessageType _ => "UnknownMessageType"
  | unknownSealedType _ => "UnknownSealedMessageType"
  | unrecognizedSealedVersion _ => "UnrecognizedSealedVersion"
  | envelopeTooLarge _ => "EnvelopeTooLarge"
  | malformedFields => "InvalidProtobuf"
  | missingField _ => "MissingField"
  | badKeyEncoding _ => "BadKeyEncoding"
  | malformedRecord => "Serialization"

def message : WireFault → String
  | messageTooShort expected got =>
    s!"message too short: expected at least {expected} bytes, got {got}"
  | legacyVersion version => s!"legacy ciphertext version: {version}"
  | unrecognizedVersion version => s!"unrecognized ciphertext version: {version}"
  | unknownMessageType type => s!"unknown ciphertext message type: {type}"
  | unknownSealedType type => s!"unknown sealed message type: {type}"
  | unrecognizedSealedVersion version => s!"unrecognized sealed sender version: {version}"
  | envelopeTooLarge length => s!"envelope too large: {length} bytes (max 65536)"
  | malformedFields => "invalid protobuf encoding"
  | missingField field => "missing field: " ++ field
  | badKeyEncoding detail => "bad key encoding: " ++ detail
  | malformedRecord => "serialization error"

end WireFault

end DoubleRatchet
