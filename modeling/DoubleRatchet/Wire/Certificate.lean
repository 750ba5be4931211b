import DoubleRatchet.Address
import DoubleRatchet.Wire.Message

/-!
# Certificates

A trust root signs the keys of servers, and a server signs the identity key of
a sender together with its address and an expiry. A certificate is what its
signed bytes say, and keeps these bytes: only they are ever signed or checked.
-/
namespace DoubleRatchet

open Protobuf

/-- A server key with the trust root's signature. -/
structure ServerCertificate where
  keyId : UInt32
  key : PublicKey
  certificate : Bytes
  signature : Bytes
deriving DecidableEq

namespace ServerCertificate

/-- The bytes that the trust root signs. -/
def content (keyId : UInt32) (key : PublicKey) : Bytes :=
  Fields.write [⟨1, .varint keyId.toNat⟩, ⟨2, .bytes key.wire.toList⟩]

/-- The certificate of signed bytes and their signature. -/
def ofSigned (certificate signature : Bytes) : Except WireFault ServerCertificate := do
  let fs ← fields certificate
  let keyId ← fs.uint32 1
  let key ← fs.bytes 2
  let keyId ← required "server certificate id" keyId
  let key ← readPoint (← required "server certificate key" key)
  return ⟨keyId, key, certificate, signature⟩

def toFields (c : ServerCertificate) : Fields :=
  [⟨1, .bytes c.certificate⟩, ⟨2, .bytes c.signature⟩]

/-- The signed bytes and the signature among the fields, if there. -/
def parts (fs : Fields) : Except WireFault (Option Bytes × Option Bytes) := do
  return (← fs.bytes 1, ← fs.bytes 2)

def ofParts (p : Option Bytes × Option Bytes) : Except WireFault ServerCertificate := do
  ofSigned (← required "server certificate" p.1) (← required "server certificate signature" p.2)

def serialize (c : ServerCertificate) : Bytes := c.toFields.write

def parse (bs : Bytes) : Except WireFault ServerCertificate := do
  ofParts (← parts (← fields bs))

end ServerCertificate

/-- A sender's address and identity key with a server's signature. -/
structure SenderCertificate where
  sender : Address
  /-- Unix milliseconds after which the certificate is no longer valid. -/
  expires : UInt64
  identityKey : PublicKey
  signer : ServerCertificate
  certificate : Bytes
  signature : Bytes
deriving DecidableEq

namespace SenderCertificate

/-- The bytes that the server signs. -/
def content (sender : Address) (expires : UInt64) (identityKey : PublicKey)
    (signer : ServerCertificate) :
    Bytes :=
  Fields.write [⟨1, .bytes (utf8 sender.name)⟩, ⟨2, .varint sender.device.toNat⟩,
    ⟨3, .fixed64 expires.toNat⟩, ⟨4, .bytes identityKey.wire.toList⟩, ⟨5, .bytes signer.serialize⟩]

/-- The certificate of signed bytes and their signature. -/
def ofSigned (certificate signature : Bytes) : Except WireFault SenderCertificate := do
  let fs ← fields certificate
  let name ← fs.text 1
  let device ← fs.uint32 2
  let expires ← fs.fixed64 3
  let identityKey ← fs.bytes 4
  let signer ← (← fs.embedded 5).mapM ServerCertificate.parts
  let name ← required "sender" name
  let device ← required "sender device" device
  let expires ← required "expires" expires
  let identityKey ← readPoint (← required "identity key" identityKey)
  let signer ← ServerCertificate.ofParts (← required "signer" signer)
  return ⟨⟨name, device⟩, expires, identityKey, signer, certificate, signature⟩

def toFields (c : SenderCertificate) : Fields :=
  [⟨1, .bytes c.certificate⟩, ⟨2, .bytes c.signature⟩]

def ofParts (p : Option Bytes × Option Bytes) : Except WireFault SenderCertificate := do
  ofSigned (← required "sender certificate" p.1) (← required "sender certificate signature" p.2)

def serialize (c : SenderCertificate) : Bytes := c.toFields.write

def parse (bs : Bytes) : Except WireFault SenderCertificate := do
  ofParts (← ServerCertificate.parts (← fields bs))

end SenderCertificate

end DoubleRatchet
