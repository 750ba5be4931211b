import DoubleRatchet.Address
import DoubleRatchet.Session.Ladder
import DoubleRatchet.Table

/-!
# Stored forms of keys and tables
-/
namespace DoubleRatchet

def PublicKey.codec : Codec PublicKey := (Codec.octets 32).view PublicKey.mk PublicKey.bytes

/-- Stored private keys are read as they are, without clamping. -/
def PrivateKey.codec : Codec PrivateKey := (Codec.octets 32).view PrivateKey.mk PrivateKey.bytes

def KeyPair.codec : Codec KeyPair :=
  (PublicKey.codec.both PrivateKey.codec).view (fun p => ⟨p.1, p.2⟩) fun k =>
    (k.publicKey, k.privateKey)

def RootKey.codec : Codec RootKey := (Codec.octets 32).view RootKey.mk RootKey.key

def ChainKey.codec : Codec ChainKey :=
  ((Codec.octets 32).both .uint32).view (fun p => ⟨p.1, p.2⟩) fun c => (c.key, c.index)

def MessageKeys.codec : Codec MessageKeys :=
  ((Codec.octets 32).both <| (Codec.octets 32).both <| (Codec.octets 16).both .uint32).view
    (fun (c, m, i, n) => ⟨c, m, i, n⟩) fun k => (k.cipherKey, k.macKey, k.iv, k.counter)

/-- Tables as lists of entries; of repeated keys the last one counts. -/
def Codec.table {K V : Type} [Ord K] [Std.TransOrd K] [Std.LawfulEqOrd K] (key : Codec K)
    (value : Codec V) : Codec (Table K V) :=
  (key.both value).list.view Table.ofList Table.entries

end DoubleRatchet
