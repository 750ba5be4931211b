import DoubleRatchet.Bytes

/-!
# Block ciphers

A keyed block cipher is a pair of maps on blocks of sixteen bytes. The modes of
operation are written for any such pair.
-/
namespace DoubleRatchet

abbrev Block := Octets 16

/-- A block cipher under one key. -/
structure BlockCipher where
  encrypt : Block → Block
  decrypt : Block → Block

end DoubleRatchet
