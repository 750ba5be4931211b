import DoubleRatchet.Wire.Compact
import DoubleRatchet.Wire.Fault

/-!
# Published bundles

The public halves of a party's keys as they are kept in a directory. Keys and
signatures are byte strings of any length here; they are checked when a session
is built from the bundle.
-/
namespace DoubleRatchet

structure PublishedPreKey where
  id : UInt32
  key : Bytes
deriving DecidableEq

structure PublishedBundle where
  registrationId : UInt32
  deviceId : UInt32
  identityKey : Bytes
  signedPreKeyId : UInt32
  signedPreKey : Bytes
  signature : Bytes
  preKeys : List PublishedPreKey
deriving DecidableEq

def PublishedPreKey.codec : Codec PublishedPreKey :=
  (Codec.uint32.both .bytes).view (fun p => ⟨p.1, p.2⟩) fun k => (k.id, k.key)

namespace PublishedBundle

def codec : Codec PublishedBundle :=
  (Codec.uint32.both <| Codec.uint32.both <| Codec.bytes.both <| Codec.uint32.both <|
    Codec.bytes.both <| Codec.bytes.both <| PublishedPreKey.codec.list).view
    (fun (r, d, i, s, k, g, p) => ⟨r, d, i, s, k, g, p⟩)
    fun b => (b.registrationId, b.deviceId, b.identityKey, b.signedPreKeyId,
      b.signedPreKey, b.signature, b.preKeys)

def encode (b : PublishedBundle) : Bytes := codec.write b

def decode (bs : Bytes) : Except WireFault PublishedBundle :=
  match codec.decode? bs with
  | some b => .ok b
  | none => .error .malformedRecord

end PublishedBundle

end DoubleRatchet
