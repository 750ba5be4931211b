import DoubleRatchet.Proofs.Wire.Varint
import DoubleRatchet.Wire.Compact

/-!
# Laws of compact records

A value comes back from what was written for it, whatever follows, and a reader
does not go back on a value when more bytes follow. Both pass from the parts of
a codec to the whole. Main statement: `Faithful.read_cut`, that nothing is read
from a written form that is cut short.
-/
namespace DoubleRatchet

namespace Codec

variable {α β : Type} {c : Codec α} {d : Codec β} {P : α → Prop} {Q : β → Prop}

/-- The values with a property come back from what is written for them, and
what is read stays the same when more bytes follow. -/
structure Faithful (c : Codec α) (P : α → Prop) : Prop where
  read_write : ∀ {a}, P a → ∀ rest, c.read (c.write a ++ rest) = some (a, rest)
  read_append : ∀ {bs a rest}, c.read bs = some (a, rest) →
      ∀ more, c.read (bs ++ more) = some (a, rest ++ more)

/-- What was written for a value tells by itself where it ends: cut short, it is refused. -/
theorem Faithful.read_cut (h : c.Faithful P) {a : α} (ha : P a) {front back : Bytes}
    (hw : c.write a = front ++ back) (hb : back ≠ []) : c.read front = none := by
  cases hread : c.read front with
  | none => rfl
  | some result =>
    obtain ⟨other, rest⟩ := result
    have hlong := h.read_append hread back
    have hwhole := h.read_write ha []
    rw [List.append_nil, hw, hlong] at hwhole
    obtain ⟨-, hnil⟩ := Prod.mk.inj (Option.some.inj hwhole)
    exact absurd (List.append_eq_nil_iff.mp hnil).2 hb

/-- A codec that is faithful to some values is faithful to fewer. -/
theorem Faithful.mono {R : α → Prop} (h : c.Faithful P) (hR : ∀ a, R a → P a) : c.Faithful R :=
  ⟨fun ha => h.read_write (hR _ ha), h.read_append⟩

theorem faithful_byte : byte.Faithful fun _ => True where
  read_write _ _ := rfl
  read_append {bs a rest} h more := by
    cases bs with
    | nil => cases h
    | cons b bs =>
      cases h
      rfl

theorem faithful_number {bits : Nat} (hbits : 0 < bits) :
    (number bits).Faithful (· < 1 <<< bits) where
  read_write h rest := Varint.read_write bits _ rest h hbits
  read_append h more := Varint.read_append h more

theorem Faithful.view (h : c.Faithful P) {ofPart : α → β} {toPart : β → α}
    (inverse : ∀ b, ofPart (toPart b) = b) :
    (c.view ofPart toPart).Faithful fun b => P (toPart b) where
  read_write {b} hb rest := by
    simp only [Codec.view, h.read_write hb, Option.map_some, inverse]
  read_append {bs b rest} hread more := by
    obtain ⟨⟨a, rest⟩, hpart, heq⟩ := Option.map_eq_some_iff.mp hread
    cases heq
    simp only [Codec.view, h.read_append hpart, Option.map_some]

theorem faithful_uint32 : uint32.Faithful fun _ => True :=
  ((faithful_number (by decide)).view fun _ => UInt32.ofNat_toNat).mono fun n _ => n.toNat_lt

theorem faithful_uint64 : uint64.Faithful fun _ => True :=
  ((faithful_number (by decide)).view fun _ => UInt64.ofNat_toNat).mono fun n _ => n.toNat_lt

theorem faithful_octets (n : Nat) : (octets n).Faithful fun _ => True where
  read_write {o} _ rest := by
    have htake : (o.toList ++ rest).take n = o.toList := by rw [List.take_left' o.length_eq]
    have hdrop : (o.toList ++ rest).drop n = rest := List.drop_left' o.length_eq
    simp only [octets, htake, hdrop, Octets.ofList?_toList, Option.map_some]
  read_append {bs o rest} hread more := by
    obtain ⟨o', htake, heq⟩ := Option.map_eq_some_iff.mp hread
    cases heq
    have hfront := Octets.ofList?_eq_some_iff.mp htake
    -- `n` bytes were there, so the bytes behind are not reached
    have hlen : n ≤ bs.length := by
      rw [← o.length_eq, ← hfront]
      exact List.length_take_le' ..
    simp only [octets, List.take_append_of_le_length hlen, List.drop_append_of_le_length hlen,
      htake, Option.map_some]

theorem faithful_bytes : bytes.Faithful (·.length < UInt64.size) where
  read_write {bs} h rest := by
    have hsplit : splitAt? bs.length (bs ++ rest) = some (bs, rest) :=
      splitAt?_eq_some_iff.mpr ⟨rfl, rfl⟩
    simp only [bytes, List.append_assoc, Varint.read_write 64 bs.length _ h (by decide), hsplit,
      Option.bind_eq_bind, Option.bind_some]
  read_append {bs a rest} hread more := by
    obtain ⟨⟨n, behind⟩, hcount, hsplit⟩ := Option.bind_eq_some_iff.mp hread
    obtain ⟨rfl, hlength⟩ := splitAt?_eq_some_iff.mp hsplit
    have hlonger : splitAt? n (a ++ rest ++ more) = some (a, rest ++ more) :=
      splitAt?_eq_some_iff.mpr ⟨List.append_assoc .., hlength⟩
    simp only [bytes, Varint.read_append hcount, hlonger, Option.bind_eq_bind, Option.bind_some]

theorem faithful_text : text.Faithful fun s => (utf8 s).length < UInt64.size where
  read_write {s} h rest := by
    simp only [text, faithful_bytes.read_write h, ofUtf8?_utf8,
      Option.bind_eq_bind, Option.bind_some]
  read_append {bs s rest} hread more := by
    obtain ⟨⟨raw, behind⟩, hbytes, hread⟩ := Option.bind_eq_some_iff.mp hread
    obtain ⟨s, hs, heq⟩ := Option.bind_eq_some_iff.mp hread
    cases heq
    simp only [text, faithful_bytes.read_append hbytes, hs, Option.bind_eq_bind, Option.bind_some]

theorem Faithful.option (h : c.Faithful P) : c.option.Faithful fun o => ∀ a ∈ o, P a where
  read_write {o} ho rest := by
    cases o with
    | none => rfl
    | some a => simp only [Codec.option, List.cons_append, h.read_write (ho a rfl), Option.map_some]
  read_append {bs o rest} hread more := by
    simp only [Codec.option] at hread ⊢
    split at hread
    · cases hread
      rfl
    · obtain ⟨⟨a, rest⟩, hpart, heq⟩ := Option.map_eq_some_iff.mp hread
      cases heq
      simp only [List.cons_append, h.read_append hpart, Option.map_some]
    · cases hread

theorem Faithful.both (hc : c.Faithful P) (hd : d.Faithful Q) :
    (c.both d).Faithful fun p => P p.1 ∧ Q p.2 where
  read_write {p} hp rest := by
    simp only [Codec.both, List.append_assoc, hc.read_write hp.1, hd.read_write hp.2,
      Option.bind_eq_bind, Option.bind_some]
  read_append {bs p rest} hread more := by
    obtain ⟨⟨a, middle⟩, ha, hread⟩ := Option.bind_eq_some_iff.mp hread
    obtain ⟨⟨b, rest⟩, hb, heq⟩ := Option.bind_eq_some_iff.mp hread
    cases heq
    simp only [Codec.both, hc.read_append ha, hd.read_append hb,
      Option.bind_eq_bind, Option.bind_some]

theorem Faithful.readMany_write (h : c.Faithful P) {as : List α} (has : ∀ a ∈ as, P a)
    (rest : Bytes) :
    c.readMany as.length (as.flatMap c.write ++ rest) = some (as, rest) := by
  induction as with
  | nil => rfl
  | cons a as ih =>
    obtain ⟨ha, has⟩ := List.forall_mem_cons.mp has
    simp only [List.length_cons, List.flatMap_cons, List.append_assoc, readMany,
      h.read_write ha, ih has, Option.bind_eq_bind, Option.bind_some]

theorem Faithful.readMany_append (h : c.Faithful P) {count : Nat} {bs rest : Bytes} {as : List α}
    (hread : c.readMany count bs = some (as, rest)) (more : Bytes) :
    c.readMany count (bs ++ more) = some (as, rest ++ more) := by
  induction count generalizing bs as with
  | zero =>
    cases hread
    rfl
  | succ count ih =>
    obtain ⟨⟨a, middle⟩, ha, hread⟩ := Option.bind_eq_some_iff.mp hread
    obtain ⟨⟨as, rest⟩, has, heq⟩ := Option.bind_eq_some_iff.mp hread
    cases heq
    simp only [readMany, h.read_append ha, ih has, Option.bind_eq_bind, Option.bind_some]

/-- A list has its length written in 64 bits. -/
theorem Faithful.list (h : c.Faithful P) :
    c.list.Faithful fun as => as.length < UInt64.size ∧ ∀ a ∈ as, P a where
  read_write {as} has rest := by
    have hcount := Varint.read_write 64 as.length (as.flatMap c.write ++ rest) has.1 (by decide)
    simp only [Codec.list, List.append_assoc, hcount, h.readMany_write has.2,
      Option.bind_eq_bind, Option.bind_some]
  read_append {bs as rest} hread more := by
    obtain ⟨⟨count, middle⟩, hcount, hread⟩ := Option.bind_eq_some_iff.mp hread
    simp only [Codec.list, Varint.read_append hcount, h.readMany_append hread,
      Option.bind_eq_bind, Option.bind_some]

theorem length_mem_le {a : α} {as : List α} (ha : a ∈ as) :
    (c.write a).length ≤ (c.list.write as).length := by
  obtain ⟨front, back, rfl⟩ := List.append_of_mem ha
  simp only [Codec.list, List.flatMap_append, List.flatMap_cons, List.length_append]
  omega

/-- No value is written as nothing. -/
def Solid (c : Codec α) : Prop := ∀ a, 0 < (c.write a).length

theorem solid_byte : byte.Solid := fun _ => Nat.one_pos

theorem solid_octets {n : Nat} (hn : 0 < n) : (octets n).Solid :=
  fun o => Nat.lt_of_lt_of_eq hn o.length_eq.symm

theorem solid_uint32 : uint32.Solid := fun _ => Varint.length_write_pos (by decide) _

theorem solid_text : text.Solid := by
  intro s
  have hcount : 0 < (Varint.write 64 (utf8 s).length).length :=
    Varint.length_write_pos (by decide) _
  simp only [text, bytes, List.length_append]
  omega

theorem Solid.view (h : c.Solid) (ofPart : α → β) (toPart : β → α) : (c.view ofPart toPart).Solid :=
  fun b => h (toPart b)

theorem Solid.both (h : c.Solid) (d : Codec β) : (c.both d).Solid := by
  intro p
  have hfirst := h p.1
  simp only [Codec.both, List.length_append]
  omega

/-- A list is not longer than what is written for it. -/
theorem Solid.length_list_le (h : c.Solid) (as : List α) :
    as.length ≤ (c.list.write as).length := by
  have helements : as.length ≤ (as.flatMap c.write).length := by
    induction as with
    | nil => exact Nat.le_refl 0
    | cons a as ih =>
      have ha := h a
      rw [List.flatMap_cons, List.length_append, List.length_cons]
      omega
  rw [Codec.list, List.length_append]
  omega

end Codec

end DoubleRatchet
