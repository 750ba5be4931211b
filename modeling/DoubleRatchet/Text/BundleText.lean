import DoubleRatchet.Text.JsonPrinter
import DoubleRatchet.Wire.Bundle

/-!
# Bundles as JSON

A published bundle as an object with its fields in a fixed order, written
without blanks; byte strings are lists of numbers. Reading takes the fields in
any order.
-/
namespace DoubleRatchet

def PublishedPreKey.toJson (k : PublishedPreKey) : String :=
  Json.writeFields [("id", toString k.id.toNat), ("public_key", Json.writeBytes k.key)]

def PublishedBundle.toJson (b : PublishedBundle) : String :=
  Json.writeFields [
    ("registration_id", toString b.registrationId.toNat),
    ("device_id", toString b.deviceId.toNat),
    ("identity_key", Json.writeBytes b.identityKey),
    ("signed_prekey_id", toString b.signedPreKeyId.toNat),
    ("signed_prekey", Json.writeBytes b.signedPreKey),
    ("signed_prekey_signature", Json.writeBytes b.signature),
    ("prekeys", Json.writeList PublishedPreKey.toJson b.preKeys)]

def Json.uint32? (j : Json) : Option UInt32 := (j.word? 32).map UInt32.ofNat

def Json.bytes? : Json → Option Bytes := list? fun j => (j.word? 8).map UInt8.ofNat

def PublishedPreKey.ofJson? (j : Json) : Option PublishedPreKey := do
  let fs ← j.fields? ["id", "public_key"]
  return ⟨← (← fs.lookup "id").uint32?, ← (← fs.lookup "public_key").bytes?⟩

def PublishedBundle.ofJson? (j : Json) : Option PublishedBundle := do
  let fs ← j.fields? ["registration_id", "device_id", "identity_key",
      "signed_prekey_id", "signed_prekey",
    "signed_prekey_signature", "prekeys"]
  return {
    registrationId := ← (← fs.lookup "registration_id").uint32?
    deviceId := ← (← fs.lookup "device_id").uint32?
    identityKey := ← (← fs.lookup "identity_key").bytes?
    signedPreKeyId := ← (← fs.lookup "signed_prekey_id").uint32?
    signedPreKey := ← (← fs.lookup "signed_prekey").bytes?
    signature := ← (← fs.lookup "signed_prekey_signature").bytes?
    preKeys := ← (← fs.lookup "prekeys").list? PublishedPreKey.ofJson? }

/-- Reads a bundle from a JSON text. -/
def PublishedBundle.ofText? (s : String) : Option PublishedBundle := do ofJson? (← Json.parse? s)

end DoubleRatchet
