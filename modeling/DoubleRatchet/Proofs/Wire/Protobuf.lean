import DoubleRatchet.Proofs.Wire.Varint
import DoubleRatchet.Wire.Protobuf

/-!
# Written fields are read back

Every list of fields comes back from its written form in the same order, those
without meaning here included, as long as numbers and lengths fit the widths in
which they are written. All that is read from any bytes does. Main statement:
`Fields.read?_write`.
-/
namespace DoubleRatchet.Protobuf

/-- The numbers in a payload, and the length of a byte string, fit their widths. -/
def Payload.Fits : Payload → Prop
  | .varint v => v < 1 <<< 64
  | .fixed64 v => v < 1 <<< 64
  | .bytes bs => bs.length < 1 <<< 64
  | .group => True
  | .fixed32 v => v < 1 <<< 32

/-- A field number has 29 bits and is not zero. -/
structure Field.Fits (f : Field) : Prop where
  positive : 0 < f.number
  number : f.number < 1 <<< 29
  payload : f.payload.Fits

/-- The keys that a field is written with: a group has one at either end. -/
def Field.keys (f : Field) : Nat :=
  match f.payload with
  | .group => 2
  | _ => 1

theorem readKey_writeKey {number wireType : Nat} (hpositive : 0 < number)
    (hnumber : number < 1 <<< 29) (htype : wireType < 8) (rest : Bytes) :
    readKey (writeKey number wireType ++ rest) = some (number, wireType, rest) := by
  have hkey : 8 * number + wireType < 1 <<< 32 := by
    simp only [Nat.reduceShiftLeft] at hnumber ⊢
    omega
  have hread := Varint.read_write_wider rest hkey (by decide) (show 32 ≤ 64 by decide)
  have hbounds : 8 * number + wireType < UInt32.size ∧ 8 ≤ 8 * number + wireType := ⟨hkey, by omega⟩
  simp only [readKey, writeKey, hread, Option.bind_eq_bind, Option.bind_some,
    if_pos hbounds, Option.some.injEq, Prod.mk.injEq, and_true]
  omega

section Scan

variable {limit fuel : Nat} {outer : List Nat} {bs rest : Bytes} {number wireType : Nat}
  {payload : Payload}

theorem ne_nil_of_readKey (h : readKey bs = some (number, wireType, rest)) : bs ≠ [] := by
  rintro rfl
  cases h

/-- Outside of all groups a field is kept, whatever it holds. -/
theorem scan_payload (hlimit : 0 < limit) (hkey : readKey bs = some (number, wireType, rest))
    (hstart : wireType ≠ 3) (hend : wireType ≠ 4) {behind : Bytes}
    (hpayload : readPayload wireType rest = some (payload, behind)) :
    scan limit (fuel + 1) [] bs = (scan limit fuel [] behind).map (⟨number, payload⟩ :: ·) := by
  rw [scan.eq_3 _ _ _ _ fun _ => ne_nil_of_readKey hkey]
  simp only [hkey, Option.bind_eq_bind, Option.bind_some, if_neg hend, if_neg hstart,
    hpayload, List.length_nil, if_neg (Nat.not_le.mpr hlimit), if_true]
  cases scan limit fuel [] behind <;> rfl

theorem scan_start (hlimit : 0 < limit) (hkey : readKey bs = some (number, 3, rest)) :
    scan limit (fuel + 1) [] bs = (scan limit fuel [number] rest).map (⟨number, .group⟩ :: ·) := by
  rw [scan.eq_3 _ _ _ _ fun _ => ne_nil_of_readKey hkey]
  simp only [hkey, Option.bind_eq_bind, Option.bind_some, List.length_nil,
    if_neg (Nat.not_le.mpr hlimit), if_true]
  cases scan limit fuel [number] rest <;> rfl

theorem scan_end (hkey : readKey bs = some (number, 4, rest)) :
    scan limit (fuel + 1) (number :: outer) bs = scan limit fuel outer rest := by
  rw [scan.eq_3 _ _ _ _ fun _ => ne_nil_of_readKey hkey]
  simp only [hkey, Option.bind_eq_bind, Option.bind_some, if_true]

end Scan

/-- A written field is read first, and the rest after it. -/
theorem scan_field {limit : Nat} (hlimit : 0 < limit) {f : Field} (hf : f.Fits) (fuel : Nat)
    (rest : Bytes) :
    scan limit (fuel + f.keys) [] (f.write ++ rest) = (scan limit fuel [] rest).map (f :: ·) := by
  obtain ⟨number, payload⟩ := f
  have hkey (wireType : Nat) (h : wireType < 8) := readKey_writeKey hf.positive hf.number h
  have hfits := hf.payload
  cases payload with
  | varint v =>
    have hpayload : readPayload 0 (Varint.write 64 v ++ rest) = some (.varint v, rest) := by
      simp only [readPayload, Varint.read_write 64 v rest hfits (by decide),
        Option.bind_eq_bind, Option.bind_some]
    simp only [Field.write, List.append_assoc]
    exact scan_payload hlimit (hkey 0 (by decide) _) (by decide) (by decide) hpayload
  | fixed64 v =>
    have hsplit : splitAt? 8 (littleBytes 8 v ++ rest) = some (littleBytes 8 v, rest) :=
      splitAt?_eq_some_iff.mpr ⟨rfl, length_littleBytes 8 v⟩
    have hvalue : littleValue (littleBytes 8 v) = v := littleValue_littleBytes hfits
    have hpayload : readPayload 1 (littleBytes 8 v ++ rest) = some (.fixed64 v, rest) := by
      simp only [readPayload, hsplit, Option.bind_eq_bind, Option.bind_some, hvalue]
    simp only [Field.write, List.append_assoc]
    exact scan_payload hlimit (hkey 1 (by decide) _) (by decide) (by decide) hpayload
  | bytes bs =>
    have hsplit : splitAt? bs.length (bs ++ rest) = some (bs, rest) :=
      splitAt?_eq_some_iff.mpr ⟨rfl, rfl⟩
    have hpayload :
        readPayload 2 (Varint.write 64 bs.length ++ (bs ++ rest)) = some (.bytes bs, rest) := by
      simp only [readPayload, Varint.read_write 64 bs.length _ hfits (by decide), hsplit,
        Option.bind_eq_bind, Option.bind_some]
    simp only [Field.write, List.append_assoc]
    exact scan_payload hlimit (hkey 2 (by decide) _) (by decide) (by decide) hpayload
  | group =>
    simp only [Field.write, Field.keys, List.append_assoc]
    rw [scan_start hlimit (hkey 3 (by decide) _), scan_end (hkey 4 (by decide) _)]
  | fixed32 v =>
    have hsplit : splitAt? 4 (littleBytes 4 v ++ rest) = some (littleBytes 4 v, rest) :=
      splitAt?_eq_some_iff.mpr ⟨rfl, length_littleBytes 4 v⟩
    have hvalue : littleValue (littleBytes 4 v) = v := littleValue_littleBytes hfits
    have hpayload : readPayload 5 (littleBytes 4 v ++ rest) = some (.fixed32 v, rest) := by
      simp only [readPayload, hsplit, Option.bind_eq_bind, Option.bind_some, hvalue]
    simp only [Field.write, List.append_assoc]
    exact scan_payload hlimit (hkey 5 (by decide) _) (by decide) (by decide) hpayload

/-- A key takes at most five bytes, and a number at most ten. -/
theorem Field.length_write_varint_le (number v : Nat) :
    (Field.mk number (.varint v)).write.length ≤ 15 := by
  have hkey : (writeKey number 0).length ≤ 5 := Varint.length_write_le 32 _
  have hvalue : (Varint.write 64 v).length ≤ 10 := Varint.length_write_le 64 v
  simp only [write, List.length_append]
  omega

theorem Field.length_write_fixed64_le (number v : Nat) :
    (Field.mk number (.fixed64 v)).write.length ≤ 13 := by
  have hkey : (writeKey number 1).length ≤ 5 := Varint.length_write_le 32 _
  simp only [write, List.length_append, length_littleBytes]
  omega

/-- So a byte string has at most fifteen bytes in front of it. -/
theorem Field.length_write_bytes (number : Nat) (bs : Bytes) :
    bs.length ≤ (Field.mk number (.bytes bs)).write.length ∧
    (Field.mk number (.bytes bs)).write.length ≤ bs.length + 15 := by
  have hkey : (writeKey number 2).length ≤ 5 := Varint.length_write_le 32 _
  have hlength : (Varint.write 64 bs.length).length ≤ 10 := Varint.length_write_le 64 bs.length
  simp only [write, List.length_append]
  omega

/-- A byte string among fields is not longer than what the fields are written as. -/
theorem Fields.length_le_write {fs : Fields} (number : Nat) {bs : Bytes}
    (h : ⟨number, .bytes bs⟩ ∈ fs) :
    bs.length ≤ fs.write.length := by
  have hpart : (Field.mk number (.bytes bs)).write.Sublist fs.write :=
    List.sublist_flatten_of_mem (List.mem_map_of_mem h)
  exact Nat.le_trans (Field.length_write_bytes number bs).1 hpart.length_le

theorem length_writeKey_pos (number wireType : Nat) : 0 < (writeKey number wireType).length :=
  Varint.length_write_pos (by decide) _

/-- Every key takes up bytes, so the count of the bytes is fuel enough. -/
theorem Field.keys_le_length (f : Field) : f.keys ≤ f.write.length := by
  obtain ⟨number, payload⟩ := f
  have hkey := length_writeKey_pos number
  cases payload with
  | varint v => simpa [keys, write] using Nat.le_add_right_of_le (hkey 0)
  | fixed64 v => simp [keys, write]
  | bytes bs => simpa [keys, write] using Nat.le_add_right_of_le (hkey 2)
  | group => simpa [keys, write] using Nat.add_le_add (hkey 3) (hkey 4)
  | fixed32 v => simp [keys, write]

theorem scan_write {limit : Nat} (hlimit : 0 < limit) {fs : Fields} (hfs : ∀ f ∈ fs, f.Fits)
    {fuel : Nat} (hfuel : fs.write.length ≤ fuel) : scan limit fuel [] fs.write = some fs := by
  induction fs generalizing fuel with
  | nil => rw [Fields.write, List.flatMap_nil, scan]
  | cons f fs ih =>
    obtain ⟨hf, hfs⟩ := List.forall_mem_cons.mp hfs
    have hwrite : Fields.write (f :: fs) = f.write ++ Fields.write fs := List.flatMap_cons
    rw [hwrite, List.length_append] at hfuel
    have hkeys := f.keys_le_length
    obtain ⟨left, rfl⟩ := Nat.exists_eq_add_of_le' (show f.keys ≤ fuel by omega)
    rw [hwrite, scan_field hlimit hf, ih hfs (by omega), Option.map_some]

theorem Fields.read?_write {fs : Fields} (h : ∀ f ∈ fs, f.Fits) : Fields.read? fs.write = some fs :=
  scan_write (by decide) h (Nat.le_refl _)

theorem readPayload_fits {wireType : Nat} {bs rest : Bytes} {payload : Payload}
    (h : readPayload wireType bs = some (payload, rest)) : payload.Fits := by
  simp only [readPayload] at h
  split at h
  · obtain ⟨⟨v, behind⟩, hread, heq⟩ := Option.bind_eq_some_iff.mp h
    cases heq
    simpa [Payload.Fits] using (Option.filter_eq_some_iff.mp hread).2
  · obtain ⟨⟨raw, behind⟩, hsplit, heq⟩ := Option.bind_eq_some_iff.mp h
    cases heq
    have hvalue := littleValue_lt raw
    rwa [(splitAt?_eq_some_iff.mp hsplit).2] at hvalue
  · obtain ⟨⟨n, behind⟩, hread, hrest⟩ := Option.bind_eq_some_iff.mp h
    obtain ⟨⟨raw, behind⟩, hsplit, heq⟩ := Option.bind_eq_some_iff.mp hrest
    cases heq
    have hlength := (splitAt?_eq_some_iff.mp hsplit).2
    simpa [Payload.Fits, hlength] using (Option.filter_eq_some_iff.mp hread).2
  · obtain ⟨⟨raw, behind⟩, hsplit, heq⟩ := Option.bind_eq_some_iff.mp h
    cases heq
    have hvalue := littleValue_lt raw
    rwa [(splitAt?_eq_some_iff.mp hsplit).2] at hvalue
  · cases h

/-- Bytes of any origin give fields that could be written. -/
theorem scan_fits {limit fuel : Nat} {outer : List Nat} {bs : Bytes} {fs : Fields}
    (h : scan limit fuel outer bs = some fs) : ∀ f ∈ fs, f.payload.Fits := by
  induction fuel generalizing outer bs fs with
  | zero =>
    cases outer with
    | nil =>
      cases bs with
      | nil => cases h; simp
      | cons b bs => cases h
    | cons number outer => cases h
  | succ fuel ih =>
    by_cases hdone : outer = [] ∧ bs = []
    · obtain ⟨rfl, rfl⟩ := hdone
      cases h
      simp
    rw [scan.eq_3 _ _ _ _ fun houter hbs => hdone ⟨houter, hbs⟩] at h
    obtain ⟨⟨number, wireType, rest⟩, -, h⟩ := Option.bind_eq_some_iff.mp h
    have hcons {payload : Payload} (hpayload : payload.Fits) {more : Fields}
        (hmore : ∀ f ∈ more, f.payload.Fits) :
        ∀ f ∈ (if outer = [] then ⟨number, payload⟩ :: more else more), f.payload.Fits := by
      split
      · exact List.forall_mem_cons.mpr ⟨hpayload, hmore⟩
      · exact hmore
    dsimp only at h
    split at h
    · -- a group ends
      split at h
      · next innermost outer _ =>
        by_cases hnumber : innermost = number
        · rw [if_pos hnumber] at h
          exact ih h
        · rw [if_neg hnumber] at h
          cases h
      · cases h
    split at h
    · cases h
    split at h
    · -- a group starts
      obtain ⟨more, hscan, heq⟩ := Option.bind_eq_some_iff.mp h
      cases heq
      exact hcons (show Payload.group.Fits from trivial) (ih hscan)
    · obtain ⟨⟨payload, behind⟩, hpayload, h⟩ := Option.bind_eq_some_iff.mp h
      obtain ⟨more, hscan, heq⟩ := Option.bind_eq_some_iff.mp h
      cases heq
      exact hcons (readPayload_fits hpayload) (ih hscan)

theorem fits_of_fields {bs : Bytes} {fs : Fields} (h : fields bs = .ok fs) :
    ∀ f ∈ fs, f.payload.Fits := by
  rw [fields] at h
  split at h
  · next hread =>
    cases h
    exact scan_fits hread
  · cases h

end DoubleRatchet.Protobuf
