import DoubleRatchet.Proofs.Curve.Signature
import DoubleRatchet.Standard

/-!
# Clamped keys

A clamped key is a multiple of eight between 2 ^ 254 and 2 ^ 255, and so never a
multiple of the order of the base point. The public half of such a key is the
u-coordinate of the point that it signs with, and leads back to that point once
its sign is known. Main statement: `SigningGroup.TwoForms.lawful`.
-/
namespace DoubleRatchet

namespace PrivateKey

/-- Keeping some bits and setting others is done once and for all. -/
theorem masked_masked (b kept set : UInt8) :
    (b &&& kept ||| set) &&& kept ||| set = b &&& kept ||| set := by
  rw [← UInt8.toBitVec_inj]
  ext i hi
  simp only [UInt8.toBitVec_and, UInt8.toBitVec_or, BitVec.getElem_and, BitVec.getElem_or]
  cases b.toBitVec[i] <;> cases kept.toBitVec[i] <;> cases set.toBitVec[i] <;> rfl

/-- Clamping a clamped key changes nothing. -/
@[simp] theorem clamp_clamp (bytes : Octets 32) : clamp (clamp bytes).bytes = clamp bytes := by
  rw [clamp, clamp, PrivateKey.mk.injEq]
  ext1
  refine List.ext_getElem? fun k => ?_
  simp only [Octets.modify, List.getElem?_modify]
  by_cases hfirst : 0 = k
  · subst hfirst
    simp [Function.comp_def, UInt8.and_assoc]
  · by_cases hlast : 31 = k
    · subst hlast
      simp [Function.comp_def, masked_masked]
    · simp [hfirst, hlast]

/-- A key as it is once it has been read or drawn. -/
def Clamped (key : PrivateKey) : Prop := clamp key.bytes = key

theorem clamped_clamp (bytes : Octets 32) : (clamp bytes).Clamped := clamp_clamp bytes

end PrivateKey

namespace Octets

theorem get_modify_of_ne {n : Nat} (o : Octets n) {i : Fin n} {j : Nat} (hj : i.val ≠ j)
    (f : UInt8 → UInt8) :
    (o.modify j f).get i = o.get i := by
  have hkept : (o.modify j f).toList[i.val]? = o.toList[i.val]? := by
    rw [modify, List.getElem?_modify]
    simp [hj.symm]
  rw [getElem?_toList, getElem?_toList] at hkept
  exact Option.some_inj.mp hkept

/-- A byte is a digit of the number. -/
theorem get_eq_digit {n : Nat} (o : Octets n) (i : Fin n) :
    o.get i = UInt8.ofNat (littleValue o.toList / 256 ^ i.val) := by
  have hbyte := o.getElem?_toList i
  have hlt : i.val < o.toList.length := Nat.lt_of_lt_of_eq i.isLt o.length_eq.symm
  nth_rewrite 1 [← littleBytes_littleValue o.toList] at hbyte
  rw [getElem?_littleBytes hlt] at hbyte
  exact (Option.some_inj.mp hbyte).symm

end Octets

namespace PrivateKey

theorem low_bits (b : UInt8) : (b &&& 248).toNat % 8 = 0 := by
  have hbytes : ∀ n < 256, (UInt8.ofNat n &&& 248).toNat % 8 = 0 := by decide +kernel
  have hb := hbytes b.toNat b.toNat_lt
  rwa [UInt8.ofNat_toNat] at hb

theorem high_bits (b : UInt8) : 64 ≤ (b &&& 127 ||| 64).toNat ∧ (b &&& 127 ||| 64).toNat < 128 := by
  have hbytes : ∀ n < 256, 64 ≤ (UInt8.ofNat n &&& 127 ||| 64).toNat ∧
      (UInt8.ofNat n &&& 127 ||| 64).toNat < 128 := by
    decide +kernel
  have hb := hbytes b.toNat b.toNat_lt
  rwa [UInt8.ofNat_toNat] at hb

/-- What is clamped is a multiple of eight, with the second highest bit as its highest one. -/
theorem scalar_clamp (bytes : Octets 32) :
    littleValue (clamp bytes).bytes.toList % 8 = 0 ∧
      1 <<< 254 ≤ littleValue (clamp bytes).bytes.toList ∧
      littleValue (clamp bytes).bytes.toList < 1 <<< 255 := by
  have hfirst : (clamp bytes).bytes.get 0 = bytes.get 0 &&& 248 :=
    (Octets.get_modify_of_ne _ (by decide) _).trans
      (Octets.get_modify bytes (i := 0) (j := 0) rfl _)
  have hlast : (clamp bytes).bytes.get 31 = (bytes.modify 0 (· &&& 248)).get 31 &&& 127 ||| 64 :=
    Octets.get_modify _ (i := 31) (j := 31) rfl _
  have hlow := low_bits (bytes.get 0)
  obtain ⟨hge, hlt⟩ := high_bits ((bytes.modify 0 (· &&& 248)).get 31)
  have hbound := littleValue_lt (clamp bytes).bytes.toList
  rw [(clamp bytes).bytes.length_eq] at hbound
  rw [← hfirst, Octets.get_eq_digit] at hlow
  rw [← hlast, Octets.get_eq_digit] at hge hlt
  have hmod : littleValue (clamp bytes).bytes.toList / 1 % 256 % 8 = 0 := hlow
  have htop : littleValue (clamp bytes).bytes.toList / 256 ^ 31 < 256 := by omega
  have hdigit : (UInt8.ofNat (littleValue (clamp bytes).bytes.toList / 256 ^ 31)).toNat =
      littleValue (clamp bytes).bytes.toList / 256 ^ 31 := UInt8.toNat_ofNat_of_lt' htop
  have hge : 64 ≤ littleValue (clamp bytes).bytes.toList / 256 ^ 31 := hdigit ▸ hge
  have hlt : littleValue (clamp bytes).bytes.toList / 256 ^ 31 < 128 := hdigit ▸ hlt
  generalize littleValue (clamp bytes).bytes.toList = v at *
  clear hfirst hlast hlow hdigit
  refine ⟨by omega, by omega, by omega⟩

/-- A clamped key is no multiple of the order: the order is odd, and eight times it is too large. -/
theorem not_dvd_scalar (bytes : Octets 32) :
    ¬Xeddsa.order ∣ littleValue (clamp bytes).bytes.toList := by
  obtain ⟨height, hge, hlt⟩ := scalar_clamp bytes
  rintro ⟨k, hk⟩
  rw [hk] at height hge hlt
  have hcoprime : Nat.Coprime 8 Xeddsa.order := by decide
  have height : 8 ∣ k := hcoprime.dvd_of_dvd_mul_left (Nat.dvd_of_mod_eq_zero height)
  have hpos : 0 < k := by
    refine Nat.pos_of_ne_zero ?_
    rintro rfl
    exact absurd hge (by decide)
  have hlarge : 1 <<< 255 ≤ Xeddsa.order * 8 := by decide
  exact Nat.not_lt.mpr (hlarge.trans (Nat.mul_le_mul_left _ (Nat.le_of_dvd hpos height))) hlt

end PrivateKey

open Xeddsa in
/-- What is documented of the curve in its two forms. The base point generates a
group of the given order: which points are which multiples of it. A point is
written as any other that is the same multiple. The public half of a clamped key
is the u-coordinate of the point that it signs with; and a point other than the
neutral one is found again from its u-coordinate and the sign in its written form. -/
structure SigningGroup.TwoForms {Point : Type} (group : SigningGroup Point)
    (publicKey : PrivateKey → PublicKey) (coordinate : Point → PublicKey)
    (Multiple : ZMod order → Point → Prop) : Prop where
  base : Multiple 1 group.base
  add : ∀ {a b p q}, Multiple a p → Multiple b q → Multiple (a + b) (group.add p q)
  neg : ∀ {a p}, Multiple a p → Multiple (-a) (group.neg p)
  multiply : ∀ {a p} (n : Nat), Multiple a p → Multiple (n * a) (group.multiply n p)
  compress : ∀ {a p q}, Multiple a p → Multiple a q → group.compress p = group.compress q
  publicKey : ∀ key : PrivateKey, key.Clamped →
    publicKey key = coordinate (group.multiply (littleValue key.bytes.toList % order) group.base)
  ofPublicKey : ∀ {a p}, Multiple a p → a ≠ 0 →
    ∃ q, group.ofPublicKey? (coordinate p) (signBit (group.compress p)) = some q ∧ Multiple a q

/-- So a clamped key leads back to the point that it signs with. -/
theorem SigningGroup.TwoForms.lawful {Point : Type} {group : SigningGroup Point}
    {publicKey : PrivateKey → PublicKey} {coordinate : Point → PublicKey}
    {Multiple : ZMod Xeddsa.order → Point → Prop}
    (h : group.TwoForms publicKey coordinate Multiple) : group.Lawful publicKey Multiple := by
  refine ⟨h.base, h.add, h.neg, h.multiply, h.compress, fun bytes => ?_⟩
  extract_lets key a
  have hmultiple : Multiple a (group.multiply a group.base) := by
    have hbase := h.multiply a h.base
    rwa [mul_one] at hbase
  have hne : (a : ZMod Xeddsa.order) ≠ 0 := by
    rw [ZMod.natCast_mod, Ne, ZMod.natCast_eq_zero_iff]
    exact PrivateKey.not_dvd_scalar bytes
  rw [h.publicKey key (PrivateKey.clamped_clamp bytes)]
  exact h.ofPublicKey hmultiple hne

/-- The standard suite signs over its curve by the scheme, and no more is asked of the
curve than its two forms. -/
theorem Suite.signing_standard {coordinate : Curve.Edwards.Point → PublicKey}
    {Multiple : ZMod Xeddsa.order → Curve.Edwards.Point → Prop}
    (forms : Curve.signing.TwoForms Curve.publicKey coordinate Multiple) :
    @Suite.Signing Suite.standard _ Curve.signing Multiple :=
  @Suite.Signing.mk Suite.standard _ Curve.signing Multiple forms.lawful rfl rfl

namespace Small

open Xeddsa

/-- Both forms of a number are that number. -/
def coordinate (p : Nat) : PublicKey := ⟨.ofLittle 32 (p % order)⟩

theorem twoForms : group.TwoForms signingSuite.publicKey coordinate Multiple where
  base := lawful_group.base
  add := lawful_group.add
  neg := lawful_group.neg
  multiply := lawful_group.multiply
  compress := lawful_group.compress
  publicKey key _ := by
    have hreduced (v : Nat) : v % order * 1 % order % order = v % order := by
      simp only [mul_one, Nat.mod_mod]
    exact congrArg (fun v => PublicKey.mk (.ofLittle 32 v)) (hreduced _).symm
  ofPublicKey := by
    rintro a p rfl -
    refine ⟨_, rfl, ?_⟩
    rw [Multiple, coordinate, littleValue_ofLittle_mod, ZMod.natCast_mod]

end Small

end DoubleRatchet
