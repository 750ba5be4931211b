import DoubleRatchet.Proofs.Session.Persistence
import DoubleRatchet.Proofs.Store.Entries
import DoubleRatchet.Stores

/-!
# Stores as they are written

All stores come back from what is written for them. Two of their tables have no
order of their own: their entries may be written in any order, and the same
table is read. Main statement: `Stores.exact_codecIn`.
-/
namespace DoubleRatchet

namespace Table

variable {K V : Type} [Ord K] [Std.TransOrd K] [Std.LawfulEqOrd K]

theorem perm_insertAll (l : List (K × V)) (t : Table K V)
    (hl : l.Pairwise fun a b => compare a.1 b.1 ≠ .eq)
    (ht : ∀ a ∈ l, ∀ b ∈ t.entries, compare a.1 b.1 ≠ .eq) :
    (l.foldl (fun t e => t.insert e.1 e.2) t).entries.Perm (l ++ t.entries) := by
  induction l generalizing t with
  | nil => exact .refl _
  | cons e l ih =>
    obtain ⟨hne, hl⟩ := List.pairwise_cons.mp hl
    obtain ⟨he, hrest⟩ := List.forall_mem_cons.mp ht
    have hplace : (t.insert e.1 e.2).entries.Perm (e :: t.entries) := perm_place he
    have hfresh : ∀ a ∈ l, ∀ b ∈ (t.insert e.1 e.2).entries, compare a.1 b.1 ≠ .eq := by
      intro a ha b hb
      rcases List.mem_cons.mp (hplace.mem_iff.mp hb) with rfl | hb
      · exact fun heq => hne a ha (Std.OrientedCmp.eq_symm heq)
      · exact hrest a ha b hb
    exact ((ih _ hl hfresh).trans (hplace.append_left l)).trans List.perm_middle

/-- A table is what its entries make up, in whichever order they are listed. -/
theorem ofList_perm {t : Table K V} {l : List (K × V)} (h : l.Perm t.entries) : ofList l = t := by
  have hdistinct : l.Pairwise fun a b => compare a.1 b.1 ≠ .eq := by
    refine (h.pairwise_iff fun heq hflip => heq (Std.OrientedCmp.eq_symm hflip)).mpr ?_
    refine t.sorted.imp fun hlt heq => ?_
    rw [hlt] at heq
    cases heq
  have hperm : (ofList l).entries.Perm t.entries := by
    refine ((perm_insertAll l empty hdistinct fun _ _ _ hb =>
        absurd hb List.not_mem_nil).trans ?_).trans h
    rw [empty, List.append_nil]
  have hentries : (ofList l).entries = t.entries := by
    refine hperm.eq_of_pairwise (fun a b _ _ hab hba => ?_) (ofList l).sorted t.sorted
    rw [Std.OrientedCmp.gt_of_lt hab] at hba
    cases hba
  cases t
  cases hl : ofList l
  rw [hl] at hentries
  cases hentries
  rfl

end Table

namespace Codec

variable {α β : Type} {c : Codec α} {d : Codec β}

/-- All values that can be written in memory come back. A byte string in memory has
fewer than `2 ^ 64` bytes. A value that is written as such a string has no list and
no text that is longer, so nothing has to be asked of the value itself. -/
def Exact (c : Codec α) : Prop := c.Faithful fun a => (c.write a).length < UInt64.size

theorem Exact.of_faithful (h : c.Faithful fun _ => True) : c.Exact := h.mono fun _ _ => trivial

theorem Exact.both (hc : c.Exact) (hd : d.Exact) : (c.both d).Exact := by
  refine (Faithful.both hc hd).mono fun p hp => ?_
  simp only [Codec.both, List.length_append] at hp
  exact ⟨by omega, by omega⟩

theorem Exact.view (h : c.Exact) {ofPart : α → β} {toPart : β → α}
    (inverse : ∀ b, ofPart (toPart b) = b) :
    (c.view ofPart toPart).Exact :=
  Faithful.view h inverse

theorem exact_bytes : bytes.Exact := by
  refine faithful_bytes.mono fun bs h => ?_
  simp only [bytes, List.length_append] at h
  omega

theorem exact_text : text.Exact := by
  refine faithful_text.mono fun s h => ?_
  simp only [text, bytes, List.length_append] at h
  omega

theorem Exact.option (h : c.Exact) : c.option.Exact := by
  refine (Faithful.option h).mono fun o hlength a ha => ?_
  rw [Option.mem_def] at ha
  simp only [Codec.option, ha, List.length_cons] at hlength
  omega

theorem Exact.list (h : c.Exact) (hsolid : c.Solid) : c.list.Exact := by
  refine (Faithful.list h).mono fun as hlength => ⟨?_, fun a ha => ?_⟩
  · exact Nat.lt_of_le_of_lt (hsolid.length_list_le as) hlength
  · exact Nat.lt_of_le_of_lt (length_mem_le ha) hlength

section Table

variable {K V : Type} [Ord K] [Std.TransOrd K] [Std.LawfulEqOrd K]

/-- A table whose entries are written in some order. It is read like any other. -/
def tableIn (listing : Table K V → List (K × V)) (key : Codec K)
    (value : Codec V) : Codec (Table K V) :=
  (key.both value).list.view Table.ofList listing

theorem Exact.tableIn {key : Codec K} {value : Codec V} (hkey : key.Exact) (hsolid : key.Solid)
    (hvalue : value.Exact) {listing : Table K V → List (K × V)}
    (hperm : ∀ t, (listing t).Perm t.entries) :
    (Codec.tableIn listing key value).Exact :=
  ((hkey.both hvalue).list (hsolid.both value)).view fun t => Table.ofList_perm (hperm t)

/-- The order has no part in how much is written. -/
theorem length_tableIn (key : Codec K) (value : Codec V) {listing : Table K V → List (K × V)}
    {t : Table K V} (hperm : (listing t).Perm t.entries) :
    ((tableIn listing key value).write t).length = ((table key value).write t).length := by
  simp only [tableIn, table, Codec.view, Codec.list, List.length_append, hperm.length_eq,
    (hperm.flatMap_right (key.both value).write).length_eq]

end Table

end Codec

open Codec

theorem PublicKey.solid_codec : PublicKey.codec.Solid := (solid_octets (by decide)).view _ _

theorem State.exact_codec : State.codec.Exact := by
  have hreceivers : ReceiverChain.codec.list.Exact :=
    Exact.list (.of_faithful ReceiverChain.faithful_codec) ((PublicKey.solid_codec.both _).view _ _)
  have hskipped : SkippedKeys.codec.Exact :=
    (Exact.list (.of_faithful SkippedKey.faithful_codec)
      ((PublicKey.solid_codec.both _).view _ _)).view fun _ => rfl
  have hkey := Exact.of_faithful PublicKey.faithful_codec
  have hnumber := Exact.of_faithful faithful_uint32
  exact ((Exact.of_faithful faithful_byte).both <| hkey.both <| hkey.both <|
    (Exact.of_faithful RootKey.faithful_codec).both <| hnumber.both <|
    (Exact.of_faithful SenderChain.faithful_codec).both <| hreceivers.both <| hskipped.both <|
    (Exact.of_faithful PendingPreKey.faithful_codec).option.both <| hnumber.both <|
      hnumber.both hkey).view fun _ => rfl

theorem Record.exact_codec : Record.codec.Exact :=
  (State.exact_codec.option.both (State.exact_codec.list ((solid_byte.both _).view _ _))).view
    fun _ => rfl

theorem Address.exact_codec : Address.codec.Exact :=
  (exact_text.both (.of_faithful faithful_uint32)).view fun _ => rfl

theorem Address.solid_codec : Address.codec.Solid := (solid_text.both _).view _ _

namespace Stores

/-- An order in which the entries of the two unordered tables are written. -/
structure Listing where
  known : Table Address PublicKey → List (Address × PublicKey)
  sessions : Table Address Record → List (Address × Record)
  known_perm : ∀ t, (known t).Perm t.entries
  sessions_perm : ∀ t, (sessions t).Perm t.entries

/-- The order of the addresses. -/
def Listing.sorted : Listing := ⟨Table.entries, Table.entries, fun _ => .refl _, fun _ => .refl _⟩

def identityCodecIn (order : Listing) : Codec IdentityStore :=
  (KeyPair.codec.both <| Codec.uint32.both <|
    tableIn order.known Address.codec PublicKey.codec).view
    (fun (k, r, t) => ⟨k, r, t⟩) fun i => (i.keyPair, i.registrationId, i.known)

/-- The stores as they are written in an order. -/
def codecIn (order : Listing) : Codec Stores :=
  ((identityCodecIn order).both <| (Codec.table .uint32 preKeyCodec).both <|
    (Codec.table .uint32 signedPreKeyCodec).both <|
      tableIn order.sessions Address.codec Record.codec).view
    (fun (i, p, g, s) => ⟨i, p, g, s⟩) fun s => (s.identity, s.preKeys, s.signedPreKeys, s.sessions)

theorem codecIn_sorted : codecIn .sorted = codec := rfl

/-- Whatever order they were written in, stores are read in one way. -/
theorem read_codecIn (order : Listing) : (codecIn order).read = codec.read := rfl

theorem exact_preKeyCodec : preKeyCodec.Exact :=
  ((Exact.of_faithful faithful_uint32).both (.of_faithful KeyPair.faithful_codec)).view fun _ => rfl

theorem exact_signedPreKeyCodec : signedPreKeyCodec.Exact :=
  ((Exact.of_faithful faithful_uint32).both <| (Exact.of_faithful faithful_uint64).both <|
    (Exact.of_faithful KeyPair.faithful_codec).both exact_bytes).view fun _ => rfl

/-- Stores come back from what is written for them, whatever follows it and in
whatever order the entries of their tables stand. -/
theorem exact_codecIn (order : Listing) : (codecIn order).Exact := by
  have hidentity : (identityCodecIn order).Exact :=
    ((Exact.of_faithful KeyPair.faithful_codec).both <| (Exact.of_faithful faithful_uint32).both <|
      Address.exact_codec.tableIn Address.solid_codec
        (.of_faithful PublicKey.faithful_codec) order.known_perm).view
      fun _ => rfl
  have hpreKeys : (Codec.table .uint32 preKeyCodec).Exact :=
    Exact.tableIn (.of_faithful faithful_uint32) solid_uint32 exact_preKeyCodec fun _ => .refl _
  have hsigned : (Codec.table .uint32 signedPreKeyCodec).Exact :=
    Exact.tableIn (.of_faithful faithful_uint32) solid_uint32 exact_signedPreKeyCodec
      fun _ => .refl _
  have hsessions : (tableIn order.sessions Address.codec Record.codec).Exact :=
    Address.exact_codec.tableIn Address.solid_codec Record.exact_codec order.sessions_perm
  exact (hidentity.both <| hpreKeys.both <| hsigned.both hsessions).view fun _ => rfl

theorem length_codecIn (order : Listing) (s : Stores) :
    ((codecIn order).write s).length = (codec.write s).length := by
  simp only [codecIn, codec, identityCodecIn, identityCodec, Codec.view,
    Codec.both, List.length_append, length_tableIn _ _ (order.known_perm _),
    length_tableIn _ _ (order.sessions_perm _)]

end Stores

end DoubleRatchet
