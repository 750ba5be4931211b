import DoubleRatchet.Proofs.Cipher.Gcm
import DoubleRatchet.Proofs.Store.Persistence
import DoubleRatchet.Snapshot

/-!
# Snapshots open as what was sealed

The header of a snapshot is read field by field as it was written, and the
bytes behind it are as many as it says. So the stores come back under the
password, more bytes behind do not count, and a snapshot that is cut short is
refused before any key is derived. Main statement: `sealed_opens`.
-/
namespace DoubleRatchet.Snapshot

/-- What stands in front of the encrypted stores. -/
def header (iterations : UInt32) (salt : Octets 32) (nonce : Octets 12) (length : Nat) : Bytes :=
  associated iterations ++ (salt.toList ++ (nonce.toList ++ bigBytes 4 length))

section Header

variable (iterations : UInt32) (salt : Octets 32) (nonce : Octets 12) (length : Nat) (rest : Bytes)

theorem length_magic : magic.length = 5 := by decide +kernel

theorem length_associated : (associated iterations).length = 9 := by
  rw [associated, List.length_append, length_magic, length_bigBytes]

@[simp] theorem length_header : (header iterations salt nonce length).length = headerLength := by
  simp only [header, List.length_append, length_associated, salt.length_eq,
    nonce.length_eq, length_bigBytes, headerLength]

/-- A field is found behind what stands in front of it. -/
theorem take_drop_append {front field : Bytes} {start size : Nat} (hfront : front.length = start)
    (hfield : field.length = size) (rest : Bytes) :
    ((front ++ (field ++ rest)).drop start).take size = field := by
  rw [List.drop_left' hfront, List.take_left' hfield]

theorem hasHeader_header : hasHeader (header iterations salt nonce length ++ rest) = true := by
  have hfront : (header iterations salt nonce length ++ rest).take 5 = magic := by
    simp only [header, associated, List.append_assoc]
    exact List.take_left' length_magic
  simp [hasHeader, hfront]

theorem iterations_header :
    UInt32.ofNat (bigValue (((header iterations salt nonce length ++ rest).drop 5).take 4)) =
    iterations := by
  have hfield : ((header iterations salt nonce length ++ rest).drop 5).take 4 =
      bigBytes 4 iterations.toNat := by
    simp only [header, associated, List.append_assoc]
    exact take_drop_append length_magic (length_bigBytes 4 _) _
  rw [hfield, bigValue_bigBytes iterations.toNat_lt, UInt32.ofNat_toNat]

theorem salt_header :
    ((header iterations salt nonce length ++ rest).drop 9).take 32 = salt.toList := by
  simp only [header, List.append_assoc]
  exact take_drop_append (length_associated iterations) salt.length_eq _

theorem nonce_header :
    ((header iterations salt nonce length ++ rest).drop 41).take 12 = nonce.toList := by
  have hfront : (associated iterations ++ salt.toList).length = 41 := by
    rw [List.length_append, length_associated, salt.length_eq]
  have hfield := take_drop_append hfront nonce.length_eq (bigBytes 4 length ++ rest)
  simpa only [header, List.append_assoc] using hfield

theorem length_field_header (hlength : length < 1 <<< 32) :
    bigValue (((header iterations salt nonce length ++ rest).drop 53).take 4) = length := by
  have hfront : (associated iterations ++ (salt.toList ++ nonce.toList)).length = 53 := by
    rw [List.length_append, List.length_append, length_associated, salt.length_eq, nonce.length_eq]
  have hfield :
      ((header iterations salt nonce length ++ rest).drop 53).take 4 = bigBytes 4 length := by
    simpa only [header, List.append_assoc]
      using take_drop_append hfront (length_bigBytes 4 length) rest
  rw [hfield, bigValue_bigBytes hlength]

theorem length_header_append :
    (header iterations salt nonce length ++ rest).length = headerLength + rest.length := by
  rw [List.length_append, length_header]

/-- Behind a header there must be as many bytes as it says. -/
theorem open?_truncated (hlength : length < 1 <<< 32) (hshort : rest.length < length)
    (password : String) :
    open? (header iterations salt nonce length ++ rest) password = .error .truncated := by
  have hlong : ¬ headerLength + rest.length < headerLength := by omega
  have hmissing : headerLength + rest.length < headerLength + length := by omega
  simp only [open?, length_header_append, if_neg hlong, hasHeader_header,
    length_field_header iterations salt nonce length rest hlength, if_pos hmissing]
  rfl

/-- As many are opened, and no more. -/
theorem open?_ok (hlength : length < 1 <<< 32) (hrest : length ≤ rest.length) {password : String}
    {key : Octets 32} (hkey : deriveKey password salt.toList iterations = .ok key) {plain : Bytes}
    (hplain : Gcm.decrypt (Aes.cipher key) nonce (associated iterations)
      (rest.take length) = some plain)
    {s : Stores} (hs : Stores.codec.decode? plain = some s) :
    open? (header iterations salt nonce length ++ rest) password = .ok s := by
  have hdata : (header iterations salt nonce length ++ rest).drop headerLength = rest :=
    List.drop_left' (length_header ..)
  have hlong : ¬ headerLength + rest.length < headerLength := by omega
  have hwhole : ¬ headerLength + rest.length < headerLength + length := by omega
  simp only [open?, length_header_append, if_neg hlong, hasHeader_header,
    iterations_header, salt_header, nonce_header,
    length_field_header iterations salt nonce length rest hlength, hdata, Octets.ofList?_toList,
    if_neg hwhole, bind, Except.bind, hkey, hplain, hs]
  rfl

end Header

/-- The snapshot of stores that are written as `plain`. -/
def snapshot (salt : Octets 32) (nonce : Octets 12) (plain : Bytes) (password : String)
    (iterations : UInt32) : Bytes :=
  let data := Gcm.encrypt (Aes.cipher (pbkdf2 (utf8 password) salt.toList iterations.toNat)) nonce
    (associated iterations) plain
  header iterations salt nonce data.length ++ data

/-- The bytes open as these stores under the password, with any more bytes
behind them too. No part of them that is cut off at the end opens as anything,
whatever the password. -/
structure Opens (bs : Bytes) (password : String) (s : Stores) : Prop where
  whole : open? bs password = .ok s
  extended : ∀ more, open? (bs ++ more) password = .ok s
  cut : ∀ front back other, bs = front ++ back → back ≠ [] →
    open? front other = .error (if front.length < headerLength then .tooShort else .truncated)

theorem deriveKey_ok (password : String) (salt : Bytes) {iterations : UInt32}
    (h : iterations ≠ 0) :
    deriveKey password salt iterations = .ok (pbkdf2 (utf8 password) salt iterations.toNat) :=
  if_neg h

section Opens

variable (salt : Octets 32) (nonce : Octets 12) {plain : Bytes} (password : String)
  {iterations : UInt32}

theorem sealWith_eq (s : Stores) (hiterations : iterations ≠ 0)
    (hfits : (Stores.codec.write s).length + 16 < UInt32.size) :
    sealWith salt nonce s password iterations =
      .ok (snapshot salt nonce (Stores.codec.write s) password iterations) := by
  simp only [sealWith, deriveKey_ok password salt.toList hiterations, bind, Except.bind,
    Gcm.length_encrypt, if_neg (Nat.not_le.mpr hfits), snapshot, header, List.append_assoc]
  rfl

theorem opens_snapshot (hiterations : iterations ≠ 0) (hfits : plain.length + 16 < UInt32.size)
    {s : Stores} (hs : Stores.codec.decode? plain = some s) :
    Opens (snapshot salt nonce plain password iterations) password s := by
  have hkey := deriveKey_ok password salt.toList hiterations
  simp only [snapshot]
  generalize hdata :
    Gcm.encrypt (Aes.cipher (pbkdf2 (utf8 password) salt.toList iterations.toNat)) nonce
    (associated iterations) plain = data
  have hlength : data.length < 1 <<< 32 := by
    rw [← hdata, Gcm.length_encrypt]
    exact hfits
  have hplain :=
    Gcm.decrypt_encrypt (Aes.cipher (pbkdf2 (utf8 password) salt.toList iterations.toNat)) nonce
    (associated iterations) plain
  rw [hdata] at hplain
  have hextended (more : Bytes) :
      open? (header iterations salt nonce data.length ++ data ++ more) password = .ok s := by
    rw [List.append_assoc]
    refine open?_ok iterations salt nonce data.length (data ++ more) hlength ?_ hkey ?_ hs
    · exact List.length_append ▸ Nat.le_add_right ..
    · rwa [List.take_left]
  refine ⟨by simpa using hextended [], hextended, fun front back other hcut hback => ?_⟩
  split
  · next hshort =>
    simp only [open?, if_pos hshort]
    rfl
  · next hlong =>
    -- all of the header is there, so it is the data that is cut
    have hheader : front.take headerLength = header iterations salt nonce data.length := by
      rw [← List.take_append_of_le_length (Nat.not_lt.mp hlong), ← hcut]
      exact List.take_left' (length_header ..)
    have hfront : front = header iterations salt nonce data.length ++ front.drop headerLength := by
      rw [← hheader, List.take_append_drop]
    rw [hfront, List.append_assoc, List.append_cancel_left_eq] at hcut
    rw [hfront]
    refine open?_truncated iterations salt nonce data.length
      (front.drop headerLength) hlength ?_ other
    have hpos := List.length_pos_iff.mpr hback
    have hwhole := congrArg List.length hcut
    rw [List.length_append] at hwhole
    omega

end Opens

/-- Stores that are sealed under a password open under it as they were, in every
part, and as nothing when they are cut short. So they do if the entries of the
unordered tables are sealed in another order. The number of iterations is not
zero, and the length of what is sealed fits 32 bits. -/
theorem sealed_opens (salt : Octets 32) (nonce : Octets 12) (s : Stores) (password : String)
    {iterations : UInt32} (hiterations : iterations ≠ 0)
    (hfits : (Stores.codec.write s).length + 16 < UInt32.size) :
    (∃ bs, sealWith salt nonce s password iterations = .ok bs ∧ Opens bs password s) ∧
      ∀ order, Opens
        (snapshot salt nonce ((Stores.codecIn order).write s) password iterations) password s := by
  have hopens (order : Stores.Listing) :
      Opens (snapshot salt nonce ((Stores.codecIn order).write s) password iterations)
        password s := by
    have hlength := Stores.length_codecIn order s
    have hsize : UInt32.size ≤ UInt64.size := by decide
    have hread := (Stores.exact_codecIn order).read_write (a := s) (by omega) []
    rw [List.append_nil, Stores.read_codecIn] at hread
    refine opens_snapshot salt nonce password hiterations (by omega) ?_
    rw [Codec.decode?, hread, Option.map_some]
  have hsorted := hopens .sorted
  rw [Stores.codecIn_sorted] at hsorted
  exact ⟨⟨_, sealWith_eq salt nonce password s hiterations hfits, hsorted⟩, hopens⟩

end DoubleRatchet.Snapshot

namespace DoubleRatchet

namespace Small

/-- Stores with an entry in every table, and two sessions. -/
def stocked : Stores :=
  let pair : KeyPair := ⟨⟨.fill 32 1⟩, ⟨.fill 32 2⟩⟩
  let device := (Stores.create pair 16380).saveIdentity ⟨"bob", 1⟩ ⟨.fill 32 3⟩
  let supplied := (device.storePreKey 7 ⟨7, pair⟩).storeSignedPreKey 1 ⟨1, 1700000000000, pair,
    List.replicate 64 9⟩
  (supplied.storeSession ⟨"bob", 1⟩ shelved).storeSession ⟨"alice", 4294967295⟩ {}

/-- The addresses in descending order. -/
def descending : Stores.Listing :=
  ⟨fun t => t.entries.reverse, fun t => t.entries.reverse, fun t => t.entries.reverse_perm,
    fun t => t.entries.reverse_perm⟩

end Small

/-- One iteration is enough, and the order of the addresses does not count. -/
theorem Snapshot.sealed_opens_stocked :
    (1 : UInt32) ≠ 0 ∧ (Stores.codec.write Small.stocked).length + 16 < UInt32.size ∧
    (Stores.codecIn Small.descending).write Small.stocked ≠ Stores.codec.write Small.stocked ∧
    (∃ bs, sealWith (.fill 32 8) (.fill 12 9) Small.stocked "hunter2" 1 = .ok bs ∧
      open? (bs ++ [0, 0]) "hunter2" = .ok Small.stocked) ∧
    open? (snapshot (.fill 32 8) (.fill 12 9)
      ((Stores.codecIn Small.descending).write Small.stocked) "hunter2" 1)
      "hunter2" = .ok Small.stocked := by
  have hfits : (Stores.codec.write Small.stocked).length + 16 < UInt32.size := by decide +kernel
  have hother :
      (Stores.codecIn Small.descending).write Small.stocked ≠ Stores.codec.write Small.stocked := by
    decide +kernel
  obtain ⟨⟨bs, hbs, hopens⟩, horder⟩ :=
    sealed_opens (.fill 32 8) (.fill 12 9) Small.stocked "hunter2"
      (show (1 : UInt32) ≠ 0 by decide) hfits
  exact ⟨by decide, hfits, hother, ⟨bs, hbs, hopens.extended [0, 0]⟩,
    (horder Small.descending).whole⟩

end DoubleRatchet
