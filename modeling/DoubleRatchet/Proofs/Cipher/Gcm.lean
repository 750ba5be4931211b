import DoubleRatchet.Cipher.Gcm

/-!
# Counter mode undoes itself

Adding the same key stream twice gives the data back, and what is sealed under
a nonce is opened under it: the tag that is checked is computed from the same
ciphertext. Nothing is asked of the cipher, which is never run backwards.
-/
namespace DoubleRatchet

theorem Ctr.apply_apply (c : BlockCipher) (counter : Nat → Block) (data : Bytes) :
    apply c counter (apply c counter data) = data := by
  apply List.ext_getElem
  · rw [length_apply, length_apply]
  · intro i h₁ h₂
    have hstream : (apply c counter data).length = data.length := length_apply c counter data
    simp only [apply, List.getElem_zipWith] at hstream ⊢
    simp only [hstream, UInt8.xor_assoc, UInt8.xor_self, UInt8.xor_zero]

namespace Gcm

variable (c : BlockCipher) (nonce : Octets 12) (associated plain : Bytes)

@[simp] theorem length_encrypt : (encrypt c nonce associated plain).length = plain.length + 16 := by
  rw [encrypt, List.length_append, Ctr.length_apply, (tag _ _ _ _).length_eq]

theorem decrypt_encrypt :
    decrypt c nonce associated (encrypt c nonce associated plain) = some plain := by
  have hlong : ¬ plain.length + 16 < 16 := by omega
  have hdata : (encrypt c nonce associated plain).take plain.length =
      Ctr.apply c (fun i => counter nonce (i + 1)) plain := List.take_left' (Ctr.length_apply ..)
  have htag : (encrypt c nonce associated plain).drop plain.length =
      (tag c nonce associated (Ctr.apply c (fun i => counter nonce (i + 1)) plain)).toList :=
    List.drop_left' (Ctr.length_apply ..)
  simp only [decrypt, length_encrypt, if_neg hlong, Nat.add_sub_cancel, hdata, htag,
    if_true, Ctr.apply_apply]

end Gcm

end DoubleRatchet
