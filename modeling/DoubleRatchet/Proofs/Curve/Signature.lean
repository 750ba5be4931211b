import Mathlib.Data.ZMod.Basic
import Mathlib.Tactic.Ring
import DoubleRatchet.Curve.Signature
import DoubleRatchet.Proofs.Suite

/-!
# Signatures verify

The signer's scalar is the nonce plus the challenge times the key, so that the
verifier finds the commitment again as a multiple of the base point. The sign
of the public point is in the highest bit of the signature, which the scalar
leaves free: it is below the order, and the order is below 2 ^ 253.
-/
namespace DoubleRatchet

theorem getElem?_littleBytes {width i : Nat} (h : i < width) (v : Nat) :
    (littleBytes width v)[i]? = some (UInt8.ofNat (v / 256 ^ i)) := by
  induction width generalizing i v with
  | zero => omega
  | succ width ih =>
    cases i with
    | zero => simp [littleBytes]
    | succ i =>
      have hnext : v / 256 / 256 ^ i = v / 256 ^ (i + 1) := by
        rw [Nat.div_div_eq_div_mul, Nat.pow_succ']
      rw [littleBytes, List.getElem?_cons_succ, ih (by omega), hnext]

namespace Octets

theorem getElem?_toList {n : Nat} (o : Octets n) (i : Fin n) : o.toList[i.val]? = some (o.get i) :=
  List.getElem?_eq_some_iff.mpr ⟨_, rfl⟩

theorem get_modify {n : Nat} (o : Octets n) {i : Fin n} {j : Nat} (hj : i.val = j)
    (f : UInt8 → UInt8) :
    (o.modify j f).get i = f (o.get i) := by
  subst hj
  have h := (o.modify i f).getElem?_toList i
  rw [modify, List.getElem?_modify_eq, getElem?_toList] at h
  exact (Option.some_inj.mp h).symm

theorem get_ofLittle (v : Nat) : (ofLittle 32 v).get 31 = UInt8.ofNat (v / 256 ^ 31) :=
  Option.some_inj.mp
    (((ofLittle 32 v).getElem?_toList 31).symm.trans (getElem?_littleBytes (by decide) v))

/-- A change that leaves one byte as it is leaves all of them. -/
theorem modify_of_get {n : Nat} {o : Octets n} {i : Fin n} {j : Nat} (hj : i.val = j)
    {f : UInt8 → UInt8} (h : f (o.get i) = o.get i) : o.modify j f = o := by
  ext1
  refine List.ext_getElem? fun k => ?_
  rw [modify, List.getElem?_modify]
  by_cases hk : j = k
  · subst hk hj
    simp [getElem?_toList, h]
  · simp [hk]

theorem modify_modify {n : Nat} (o : Octets n) (i : Nat) (f g : UInt8 → UInt8) :
    (o.modify i f).modify i g = o.modify i (g ∘ f) := by
  ext1
  exact List.modify_modify_eq f g i o.toList

@[simp] theorem halves_append (a b : Octets 32) : (a.append b).halves = (a, b) := by
  refine Prod.ext (Octets.ext ?_) (Octets.ext ?_)
  · show ((a.toList ++ b.toList).drop 0).take 32 = a.toList
    rw [List.drop_zero, List.take_left' a.length_eq]
  · show ((a.toList ++ b.toList).drop 32).take 32 = b.toList
    rw [List.drop_left' a.length_eq, List.take_of_length_le (Nat.le_of_eq b.length_eq)]

end Octets

namespace Xeddsa

theorem order_lt : order < 1 <<< 253 := by decide

theorem order_pos : 0 < order := by decide

/-- A sign written over a byte that leaves it free is read again, and is masked out again. -/
theorem sign_over {n : Nat} (h : n < 128) (negative : Bool) :
    decide (128 ≤ (UInt8.ofNat n &&& 127 ||| if negative then 128 else 0)) = negative ∧
      (UInt8.ofNat n &&& 127 ||| if negative then 128 else 0) &&& 127 = UInt8.ofNat n := by
  revert negative n
  decide

/-- The written form of a scalar with a sign in its highest bit gives back both. -/
theorem read_signed {v : Nat} (h : v < order) (negative : Bool) :
    let signed :=
      (Octets.ofLittle 32 v).modify 31 fun b => b &&& 127 ||| if negative then 128 else 0
    signBit signed = negative ∧ littleValue (signed.modify 31 (· &&& 127)).toList = v := by
  have hbound : v < 1 <<< 253 := Nat.lt_trans h order_lt
  have htop : v / 256 ^ 31 < 128 := by omega
  obtain ⟨hsign, hmask⟩ := sign_over htop negative
  have hlast := Octets.get_ofLittle v
  constructor
  · rw [signBit, Octets.get_modify (i := 31) (j := 31) _ rfl, hlast]
    exact hsign
  · rw [Octets.modify_modify, Octets.modify_of_get (i := 31) (j := 31) rfl]
    · exact littleValue_littleBytes (Nat.lt_trans hbound (by decide))
    · rw [hlast]
      exact hmask

end Xeddsa

open Xeddsa in
/-- The operations of a group as far as the base point reaches: which points are
which multiples of it. The order of the base point divides out, the written form
depends on the multiple alone, and the public half of a clamped key leads back
to the point that the key signs with. -/
structure SigningGroup.Lawful {Point : Type} (group : SigningGroup Point)
    (publicKey : PrivateKey → PublicKey) (Multiple : ZMod order → Point → Prop) : Prop where
  base : Multiple 1 group.base
  add : ∀ {a b p q}, Multiple a p → Multiple b q → Multiple (a + b) (group.add p q)
  neg : ∀ {a p}, Multiple a p → Multiple (-a) (group.neg p)
  multiply : ∀ {a p} (n : Nat), Multiple a p → Multiple (n * a) (group.multiply n p)
  compress : ∀ {a p q}, Multiple a p → Multiple a q → group.compress p = group.compress q
  recover : ∀ bytes, let key := PrivateKey.clamp bytes
    let a := littleValue key.bytes.toList % order
    ∃ p, group.ofPublicKey? (publicKey key)
    (signBit (group.compress (group.multiply a group.base))) = some p ∧
      Multiple a p

/-- A suite signs by the scheme, over a group that its public keys belong to. -/
structure Suite.Signing [Suite] {Point : Type} (group : SigningGroup Point)
    (Multiple : ZMod Xeddsa.order → Point → Prop) : Prop where
  lawful : group.Lawful Suite.publicKey Multiple
  sign : Suite.sign = Xeddsa.sign group
  verify : Suite.verify = Xeddsa.verify group

section Signing

open Xeddsa

variable {Point : Type} {group : SigningGroup Point} {publicKey : PrivateKey → PublicKey}
  {Multiple : ZMod order → Point → Prop}

/-- A multiple of the base point is written as any other point that is the same multiple. -/
theorem SigningGroup.Lawful.compress_multiply (h : group.Lawful publicKey Multiple) {n : Nat}
    {p : Point} (hp : Multiple n p) :
    group.compress p = group.compress (group.multiply n group.base) := by
  have hbase := h.multiply n h.base
  rw [mul_one] at hbase
  exact h.compress hp hbase

/-- The scalar takes the challenge times the key away again. -/
theorem response_eq (h a r : Nat) :
    (h : ZMod order) * -(a : ZMod order) + ((h * a + r) % order : Nat) = r := by
  rw [ZMod.natCast_mod]
  push_cast
  ring

/-- What a clamped key signs verifies under its public half. -/
theorem SigningGroup.Lawful.verify_sign (h : group.Lawful publicKey Multiple) (bytes : Octets 32)
    (message : Bytes) (random : Octets 64) : verify group (publicKey (.clamp bytes)) message
      (sign group (.clamp bytes) message random) = true := by
  obtain ⟨p, hrecover, hp⟩ := h.recover bytes
  unfold verify sign
  extract_lets a publicPoint r commitment challenge s negative
  have hwritten : group.compress p = publicPoint := h.compress_multiply hp
  obtain ⟨hsign, hvalue⟩ :=
    read_signed (Nat.mod_lt (challenge * a + r) order_pos) (signBit publicPoint)
  have hresponse :=
    h.add (h.multiply challenge (h.neg hp)) (h.multiply ((challenge * a + r) % order) h.base)
  rw [mul_one, response_eq] at hresponse
  have hcommitment := h.compress_multiply hresponse
  have hbelow : ¬1 <<< 253 ≤ (challenge * a + r) % order :=
    Nat.not_le.mpr (Nat.lt_trans (Nat.mod_lt _ order_pos) order_lt)
  change signBit (s.modify 31 fun b => b &&& 127 ||| negative) = signBit publicPoint at hsign
  change littleValue ((s.modify 31 fun b => b &&& 127 ||| negative).modify 31 (· &&& 127)).toList =
    (challenge * a + r) % order at hvalue
  rw [Octets.halves_append]
  simp only [hsign]
  rw [hrecover]
  simp only [hvalue, hwritten, if_neg hbelow, Nat.mod_mod]
  exact decide_eq_true hcommitment

theorem Suite.Signing.signs [Suite] (h : Suite.Signing group Multiple) (bytes : Octets 32) :
    (PrivateKey.clamp bytes).Signs := by
  intro message random
  rw [h.sign, h.verify]
  exact h.lawful.verify_sign bytes message random

end Signing

namespace Small

open Xeddsa

/-- The numbers modulo the order. -/
def group : SigningGroup Nat where
  base := 1
  add a b := (a + b) % order
  neg a := order - a % order
  multiply n a := n * a % order
  compress a := .ofLittle 32 (a % order)
  ofPublicKey? key _ := some (littleValue key.bytes.toList)

/-- Keys are written as numbers, and two of them agree on their product. -/
@[reducible] def signingSuite : Suite where
  publicKey key := ⟨.ofLittle 32 (littleValue key.bytes.toList % order)⟩
  agree key their :=
  some (.ofLittle 32 (littleValue key.bytes.toList * littleValue their.bytes.toList % order))
  sign := Xeddsa.sign group
  verify := Xeddsa.verify group
  mac := mac
  cipher := suite.cipher

/-- A number stands for its class. -/
def Multiple (a : ZMod order) (p : Nat) : Prop := (p : ZMod order) = a

theorem littleValue_ofLittle_mod (v : Nat) :
    littleValue (Octets.ofLittle 32 (v % order)).toList = v % order :=
  littleValue_littleBytes (Nat.lt_trans (Nat.mod_lt v order_pos) (by decide))

theorem lawful_signingSuite : @Suite.Lawful signingSuite := by
  refine @Suite.Lawful.mk signingSuite (fun a b => ⟨_, rfl, ?_⟩) lawful.cipher
  show some (Octets.ofLittle 32 (_ * littleValue (Octets.ofLittle 32 _).toList % order)) =
    some (Octets.ofLittle 32 (_ * littleValue (Octets.ofLittle 32 _).toList % order))
  rw [littleValue_ofLittle_mod, littleValue_ofLittle_mod, Nat.mul_mod_mod,
    Nat.mul_mod_mod, Nat.mul_comm]

theorem lawful_group : group.Lawful signingSuite.publicKey Multiple := by
  refine ⟨Nat.cast_one, ?_, ?_, ?_, ?_, ?_⟩
  · rintro a b p q rfl rfl
    exact (ZMod.natCast_mod (p + q) order).trans (Nat.cast_add p q)
  · rintro a p rfl
    show ((order - p % order : Nat) : ZMod order) = -(p : ZMod order)
    rw [Nat.cast_sub (Nat.le_of_lt (Nat.mod_lt p order_pos)), ZMod.natCast_self,
      ZMod.natCast_mod, zero_sub]
  · rintro a p n rfl
    exact (ZMod.natCast_mod (n * p) order).trans (Nat.cast_mul n p)
  · intro a p q hp hq
    have hsame := (ZMod.natCast_eq_natCast_iff' p q order).mp (hp.trans hq.symm)
    simp only [group, hsame]
  · intro bytes key a
    exact ⟨_, rfl, congrArg Nat.cast (littleValue_ofLittle_mod _)⟩

theorem signing : @Suite.Signing signingSuite Nat group Multiple :=
  @Suite.Signing.mk signingSuite Nat group Multiple lawful_group rfl rfl

end Small

end DoubleRatchet
