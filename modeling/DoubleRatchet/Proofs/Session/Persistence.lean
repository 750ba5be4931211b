import DoubleRatchet.Proofs.Wire.Compact
import DoubleRatchet.Session.Record

/-!
# Records as they are stored

A record is stored with all of its states, and each state with its chains, its
cached keys and the pre-key that is pending. Main statement: a stored record is
loaded as it was, and one that is cut short anywhere is not loaded at all.
-/
namespace DoubleRatchet

open Codec

theorem PublicKey.faithful_codec : PublicKey.codec.Faithful fun _ => True :=
  (faithful_octets 32).view fun _ => rfl

theorem PrivateKey.faithful_codec : PrivateKey.codec.Faithful fun _ => True :=
  (faithful_octets 32).view fun _ => rfl

theorem KeyPair.faithful_codec : KeyPair.codec.Faithful fun _ => True :=
  ((PublicKey.faithful_codec.both PrivateKey.faithful_codec).view fun _ => rfl).mono fun _ _ =>
    ⟨trivial, trivial⟩

theorem RootKey.faithful_codec : RootKey.codec.Faithful fun _ => True :=
  (faithful_octets 32).view fun _ => rfl

theorem ChainKey.faithful_codec : ChainKey.codec.Faithful fun _ => True :=
  (((faithful_octets 32).both faithful_uint32).view fun _ => rfl).mono fun _ _ => ⟨trivial, trivial⟩

theorem MessageKeys.faithful_codec : MessageKeys.codec.Faithful fun _ => True :=
  (((faithful_octets 32).both <| (faithful_octets 32).both <|
    (faithful_octets 16).both faithful_uint32).view
    fun _ => rfl).mono fun _ _ => ⟨trivial, trivial, trivial, trivial⟩

theorem SenderChain.faithful_codec : SenderChain.codec.Faithful fun _ => True :=
  ((KeyPair.faithful_codec.both ChainKey.faithful_codec).view fun _ => rfl).mono fun _ _ =>
    ⟨trivial, trivial⟩

theorem ReceiverChain.faithful_codec : ReceiverChain.codec.Faithful fun _ => True :=
  ((PublicKey.faithful_codec.both ChainKey.faithful_codec).view fun _ => rfl).mono fun _ _ =>
    ⟨trivial, trivial⟩

theorem PendingPreKey.faithful_codec : PendingPreKey.codec.Faithful fun _ => True :=
  ((faithful_uint32.option.both <| faithful_uint32.both PublicKey.faithful_codec).view fun _ =>
    rfl).mono
    fun _ _ => ⟨fun _ _ => trivial, trivial, trivial⟩

theorem SkippedKey.faithful_codec : SkippedKey.codec.Faithful fun _ => True :=
  ((PublicKey.faithful_codec.both <| MessageKeys.faithful_codec.both faithful_uint64).view fun _ =>
    rfl).mono
    fun _ _ => ⟨trivial, trivial, trivial⟩

theorem SkippedKeys.faithful_codec : SkippedKeys.codec.Faithful fun c => c.size < UInt64.size :=
  (SkippedKey.faithful_codec.list.view fun _ => rfl).mono fun _ h => ⟨h, fun _ _ => trivial⟩

/-- The lengths of a state's lists fit the 64 bits in which they are stored, as
those of all lists in memory do. -/
structure State.Storable (s : State) : Prop where
  receivers : s.receivers.length < UInt64.size
  skipped : s.skipped.size < UInt64.size

theorem State.faithful_codec : State.codec.Faithful State.Storable := by
  have parts :=
    faithful_byte.both <| PublicKey.faithful_codec.both <| PublicKey.faithful_codec.both <|
    RootKey.faithful_codec.both <| faithful_uint32.both <| SenderChain.faithful_codec.both <|
    ReceiverChain.faithful_codec.list.both <| SkippedKeys.faithful_codec.both <|
    PendingPreKey.faithful_codec.option.both <| faithful_uint32.both <|
      faithful_uint32.both PublicKey.faithful_codec
  refine (parts.view fun _ => rfl).mono fun s h => ?_
  exact ⟨trivial, trivial, trivial, trivial, trivial, trivial,
    ⟨h.receivers, fun _ _ => trivial⟩, h.skipped, fun _ _ => trivial, trivial, trivial, trivial⟩

namespace Record

/-- The same of a record: of its history and of each of its states. -/
structure Storable (r : Record) : Prop where
  previous : r.previous.length < UInt64.size
  states : ∀ s ∈ r.states, s.Storable

theorem faithful_codec : codec.Faithful Storable := by
  refine ((State.faithful_codec.option.both State.faithful_codec.list).view fun _ =>
    rfl).mono fun r h => ?_
  refine ⟨fun s hs => h.states s ?_, h.previous,
    fun s hs => h.states s (List.mem_append_right _ hs)⟩
  exact List.mem_append_left _ (Option.mem_toList.mpr hs)

/-- A record is loaded as it was stored, with all of its states and their
contents in order; of a stored record that is cut short nothing is loaded. -/
theorem deserialize_serialize (r : Record) (h : r.Storable) :
    deserialize r.serialize = .ok r ∧
      ∀ front back, r.serialize = front ++ back → back ≠ [] →
        deserialize front = .error (.store (if front = [] then .empty else .malformed)) := by
  constructor
  · have hread := faithful_codec.read_write h []
    rw [List.append_nil] at hread
    simp only [serialize, deserialize, if_true, Codec.decode?, hread, Option.map_some]
  · intro front back hcut hback
    cases front with
    | nil => rfl
    | cons first front =>
      obtain ⟨rfl, hbody⟩ := List.cons.inj hcut
      have hnone := faithful_codec.read_cut h hbody hback
      simp only [deserialize, if_true, Codec.decode?, hnone, Option.map_none,
        List.cons_ne_nil, if_false]

end Record

namespace Small

/-- A state with numbers at the ends of their ranges: two receiver chains, keys
cached for one of them, and a pending pre-key without a one-time part. -/
def crowded : State where
  version := 255
  localIdentity := ⟨.fill 32 1⟩
  remoteIdentity := ⟨.fill 32 2⟩
  rootKey := ⟨.fill 32 3⟩
  previousCounter := 128
  sender := ⟨⟨⟨.fill 32 4⟩, ⟨.fill 32 5⟩⟩, ⟨.fill 32 6, 4294967295⟩⟩
  receivers := [⟨⟨.fill 32 7⟩, ⟨.fill 32 8, 300⟩⟩, ⟨⟨.fill 32 9⟩, ⟨.fill 32 10, 0⟩⟩]
  skipped := ⟨[⟨⟨.fill 32 7⟩, ⟨.fill 32 11, .fill 32 12, .fill 16 13, 127⟩, 18446744073709551615⟩]⟩
  pending := some ⟨none, 4294967295, ⟨.fill 32 14⟩⟩
  localRegistrationId := 16380
  baseKey := ⟨.fill 32 15⟩

/-- A record with a new state in front of the crowded one. -/
def shelved : Record :=
  ⟨some { crowded with receivers := [], skipped := {}, pending := none }, [crowded]⟩

end Small

/-- A record with a crowded state in its history is loaded as it was, and not without
its last byte. -/
theorem Record.deserialize_serialize_shelved : Small.shelved.Storable ∧
    deserialize Small.shelved.serialize = .ok Small.shelved ∧
    deserialize Small.shelved.serialize.dropLast = .error (.store .malformed) := by
  have hstorable : Small.shelved.Storable := by
    refine ⟨by decide, List.forall_mem_cons.mpr ⟨⟨by decide, by decide⟩, fun s hs => ?_⟩⟩
    rw [List.mem_singleton.mp hs]
    exact ⟨by decide, by decide⟩
  have hlast : Small.shelved.serialize ≠ [] := List.cons_ne_nil _ _
  obtain ⟨hwhole, hcut⟩ := deserialize_serialize Small.shelved hstorable
  refine ⟨hstorable, hwhole, ?_⟩
  have hrefused := hcut _ _ (List.dropLast_concat_getLast hlast).symm (List.cons_ne_nil _ _)
  rwa [if_neg (by decide +kernel)] at hrefused

end DoubleRatchet
