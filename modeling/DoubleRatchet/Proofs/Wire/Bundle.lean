import DoubleRatchet.Proofs.Wire.Compact
import DoubleRatchet.Wire.Bundle

/-!
# Published bundles as they are written

A bundle tells by itself where it ends: every number, byte string and list in
it does. So it is read whatever follows it, and of a bundle that is cut short
nothing is read, not even one with fewer one-time keys. Main statement:
`PublishedBundle.decode_self_delimiting`.
-/
namespace DoubleRatchet

open Codec

theorem PublishedPreKey.faithful_codec : codec.Faithful (·.key.length < UInt64.size) :=
  ((faithful_uint32.both faithful_bytes).view fun _ => rfl).mono fun _ h => ⟨trivial, h⟩

namespace PublishedBundle

/-- All lengths in a bundle fit the 64 bits in which they are written. -/
structure Fits (b : PublishedBundle) : Prop where
  identityKey : b.identityKey.length < UInt64.size
  signedPreKey : b.signedPreKey.length < UInt64.size
  signature : b.signature.length < UInt64.size
  preKeys : b.preKeys.length < UInt64.size
  keys : ∀ k ∈ b.preKeys, k.key.length < UInt64.size

theorem faithful_codec : codec.Faithful Fits := by
  have parts :=
    faithful_uint32.both <| faithful_uint32.both <| faithful_bytes.both <| faithful_uint32.both <|
    faithful_bytes.both <| faithful_bytes.both PublishedPreKey.faithful_codec.list
  refine (parts.view fun _ => rfl).mono fun b h => ?_
  exact ⟨trivial, trivial, h.identityKey, trivial, h.signedPreKey, h.signature, h.preKeys, h.keys⟩

theorem decode_encode_append {b : PublishedBundle} (h : b.Fits) (rest : Bytes) :
    decode (b.encode ++ rest) = .ok b := by
  have hread : codec.read (b.encode ++ rest) = some (b, rest) := faithful_codec.read_write h rest
  simp only [decode, Codec.decode?, hread, Option.map_some]

/-- A bundle comes back from its bytes. -/
theorem decode_encode {b : PublishedBundle} (h : b.Fits) : decode b.encode = .ok b := by
  have hread := decode_encode_append h []
  rwa [List.append_nil] at hread

/-- A bundle comes back from its bytes, whatever follows them. No part of them that
lacks some at the end is read as any bundle. The lengths are those of lists in memory. -/
theorem decode_self_delimiting (b : PublishedBundle) (h : b.Fits) :
    (∀ rest, decode (b.encode ++ rest) = .ok b) ∧
      ∀ front back, b.encode = front ++ back → back ≠ [] →
      decode front = .error .malformedRecord := by
  refine ⟨decode_encode_append h, fun front back hcut hback => ?_⟩
  have hread : codec.read front = none := faithful_codec.read_cut h hcut hback
  simp only [decode, Codec.decode?, hread, Option.map_none]

end PublishedBundle

namespace Small

/-- A bundle with ids at the ends of their range, a key of two hundred bytes and one of none. -/
def directory : PublishedBundle where
  registrationId := 16380
  deviceId := 4294967295
  identityKey := 5 :: List.replicate 32 1
  signedPreKeyId := 128
  signedPreKey := List.replicate 200 2
  signature := []
  preKeys := [⟨0, []⟩, ⟨4294967295, 5 :: List.replicate 32 3⟩]

end Small

/-- A bundle with two keys is read in front of other bytes, and cut short behind
the first of its keys it is not read as one with a single key. -/
theorem PublishedBundle.decode_self_delimiting_directory : Small.directory.Fits ∧
    decode (Small.directory.encode ++ [0, 255]) = .ok Small.directory ∧
    decode (Small.directory.encode.take 249) = .error .malformedRecord := by
  have hfits : Small.directory.Fits :=
    ⟨by decide, by decide +kernel, by decide, by decide, by decide⟩
  obtain ⟨hwhole, hcut⟩ := decode_self_delimiting Small.directory hfits
  refine ⟨hfits, hwhole _, hcut _ _ (List.take_append_drop 249 _).symm ?_⟩
  decide +kernel

end DoubleRatchet
