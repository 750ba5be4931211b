import DoubleRatchet.Cipher.Keyed
import DoubleRatchet.Proofs.Session.Agreement
import DoubleRatchet.Standard

/-!
# Lengths of keys

Derived material, keys and starting blocks carry their lengths in their types.
Below, agreeing, writing and reading are spelled out a second time over byte
strings whose lengths are only known when they are used: a derivation may be
asked for too much, and a piece of it, a key or a block may be of a wrong
length. None of this ever happens, and what comes of the operations is what
comes of those over types.
-/
namespace DoubleRatchet

namespace Aes

@[simp] theorem exactly_toList {n : Nat} (o : Octets n) : exactly n o.toList = .ok o := by
  simp [exactly]

/-- The `len` bytes from position `start` on, if there are as many. -/
def cut (start len : Nat) (bs : Bytes) : Except KeyFault (Octets len) :=
  exactly len ((bs.drop start).take len)

theorem cut_toList {n : Nat} (o : Octets n) {start len : Nat} (h : start + len ≤ n) :
    cut start len o.toList = .ok (o.slice start len h) :=
  exactly_toList (o.slice start len h)

end Aes

/-- A root key and a chain at its start: the first 32 bytes, and the rest. -/
def RootKey.splitMeasured (okm : Bytes) : Except KeyFault (RootKey × ChainKey) := do
  return (⟨← Aes.cut 0 32 okm⟩, ⟨← Aes.exactly 32 (okm.drop 32), 0⟩)

theorem RootKey.splitMeasured_eq (okm : Octets 64) :
    splitMeasured okm.toList = .ok (split okm) := by
  have hrest : okm.toList.drop 32 = (okm.slice 32 32 (by decide)).toList := by
    refine (List.take_of_length_le ?_).symm
    simp [okm.length_eq]
  unfold splitMeasured
  rw [Aes.cut_toList okm (show 0 + 32 ≤ 64 by decide), hrest, Aes.exactly_toList]
  rfl

variable [Suite]

theorem hkdf_of_le {n : Nat} (h : n ≤ Hkdf.limit) (material : Bytes) (salt : Option Bytes)
    (info : Bytes) :
    hkdf material salt info n = .ok (Hkdf.derive (salt.getD []) material info n).toList := if_pos h

/-- Keys for one message, from material that is cut into the three. -/
def MessageKeys.deriveMeasured (material : Bytes)
    (counter : UInt32) : Except KeyFault MessageKeys := do
  let okm ← hkdf material none (utf8 "WhisperMessageKeys") 80
  return ⟨← Aes.cut 0 32 okm, ← Aes.cut 32 32 okm, ← Aes.cut 64 16 okm, counter⟩

theorem MessageKeys.deriveMeasured_eq (material : Bytes) (counter : UInt32) :
    deriveMeasured material counter = .ok (derive material counter) := by
  unfold deriveMeasured
  rw [hkdf_of_le (by decide)]
  simp only [bind, Except.bind, Aes.cut_toList _ (show 0 + 32 ≤ 80 by decide),
    Aes.cut_toList _ (show 32 + 32 ≤ 80 by decide), Aes.cut_toList _ (show 64 + 16 ≤ 80 by decide)]
  rfl

/-- The keys of the message at a link. -/
def ChainKey.messageKeysMeasured (c : ChainKey) : Except KeyFault MessageKeys :=
  MessageKeys.deriveMeasured (Suite.mac c.key.toList [1]).toList c.index

@[simp] theorem ChainKey.messageKeysMeasured_eq (c : ChainKey) :
    c.messageKeysMeasured = .ok c.messageKeys :=
  MessageKeys.deriveMeasured_eq _ _

/-- One ratchet step. -/
def RootKey.createChainMeasured (root : RootKey) (their : PublicKey) (our : PrivateKey) :
    Except KeyFault (RootKey × ChainKey) := do
  let secret ← our.agree their
  splitMeasured (← hkdf secret.toList (some root.key.toList) (utf8 "WhisperRatchet") 64)

@[simp] theorem RootKey.createChainMeasured_eq (root : RootKey) (their : PublicKey)
    (our : PrivateKey) :
    root.createChainMeasured their our = root.createChain their our := by
  unfold createChainMeasured createChain
  cases our.agree their with
  | error fault => rfl
  | ok secret =>
    simp only [bind, Except.bind, hkdf_of_le (show 64 ≤ Hkdf.limit by decide), splitMeasured_eq]
    rfl

/-- The first root key and chain. -/
def deriveRootMeasured (secrets : List (Octets 32)) : Except KeyFault (RootKey × ChainKey) := do
  let material := List.replicate 32 0xff ++ secrets.flatMap Octets.toList
  RootKey.splitMeasured (← hkdf material none (utf8 "WhisperText") 64)

@[simp] theorem deriveRootMeasured_eq (secrets : List (Octets 32)) :
    deriveRootMeasured secrets = .ok (deriveRoot secrets) := by
  unfold deriveRootMeasured
  simp only [hkdf_of_le (show 64 ≤ Hkdf.limit by decide), bind, Except.bind,
    RootKey.splitMeasured_eq]
  rfl

/-- The initiator's state. -/
def Initiator.stateMeasured (p : Initiator) (sending : KeyPair) : Except KeyFault State := do
  let (root, chain) ← deriveRootMeasured (← p.secrets)
  let (sendingRoot, sendingChain) ← root.createChainMeasured p.theirRatchetKey sending.privateKey
  return {
    version := currentVersion
    localIdentity := p.identity.publicKey
    remoteIdentity := p.theirIdentity
    rootKey := sendingRoot
    sender := ⟨sending, sendingChain⟩
    receivers := [⟨p.theirRatchetKey, chain⟩]
    baseKey := p.base.publicKey }

theorem Initiator.stateMeasured_eq (p : Initiator) (sending : KeyPair) :
    p.stateMeasured sending = p.state sending := by
  unfold stateMeasured state secrets
  simp only [deriveRootMeasured_eq, RootKey.createChainMeasured_eq, bind_assoc, pure_bind]
  rfl

/-- The responder's state. -/
def Responder.stateMeasured (p : Responder) : Except KeyFault State := do
  let (root, chain) ← deriveRootMeasured (← p.secrets)
  return {
    version := currentVersion
    localIdentity := p.identity.publicKey
    remoteIdentity := p.theirIdentity
    rootKey := root
    sender := ⟨p.ratchet, chain⟩
    baseKey := p.theirBaseKey }

theorem Responder.stateMeasured_eq (p : Responder) : p.stateMeasured = p.state := by
  unfold stateMeasured state secrets
  simp only [deriveRootMeasured_eq, bind_assoc, pure_bind]
  rfl

/-- The body of a message, under a key and from a block given as bytes. -/
def encryptBody (plain key start : Bytes) : Except KeyFault Bytes := do
  let cipher := Suite.cipher (← Aes.exactly 32 key)
  return Cbc.encrypt cipher (← Aes.exactly 16 start) plain

/-- The plaintext of a body. -/
def decryptBody (body key start : Bytes) : Except KeyFault Bytes := do
  let cipher := Suite.cipher (← Aes.exactly 32 key)
  match Cbc.decrypt cipher (← Aes.exactly 16 start) body with
  | some plain => return plain
  | none => throw .cipherInput

omit [Suite] in
/-- Over the standard suite these are the ciphers for keys given as bytes. -/
theorem bodies_standard :
    @encryptBody .standard = Aes.encryptCbc ∧ @decryptBody .standard = Aes.decryptCbc :=
  ⟨rfl, rfl⟩

@[simp] theorem encryptBody_eq (key : Octets 32) (iv : Block) (plain : Bytes) :
    encryptBody plain key.toList iv.toList = .ok (Cbc.encrypt (Suite.cipher key) iv plain) := by
  simp [encryptBody, bind, Except.bind, pure, Except.pure]

/-- A body that does not decrypt is the only unusable input. -/
theorem decryptBody_eq (key : Octets 32) (iv : Block) (body : Bytes) :
    decryptBody body key.toList iv.toList = match Cbc.decrypt (Suite.cipher key) iv body with
      | some plain => .ok plain
      | none => .error .cipherInput := by
  unfold decryptBody
  simp only [Aes.exactly_toList, bind, Except.bind]
  cases Cbc.decrypt (Suite.cipher key) iv body <;> rfl

namespace State

/-- The next message of a state, and the state after it. -/
def encryptMeasured (s : State) (plain : Bytes) : Except SessionError (Message × State) :=
  let chain := s.sender.chain
  if chain.index.toNat = UInt32.size - 1 then
    .error (.session (.invalidState .senderChainExhausted))
  else do
    let keys ← chain.messageKeysMeasured.mapError .ofKey
    let body ← (encryptBody plain keys.cipherKey.toList keys.iv.toList).mapError .ofKey
    let message := RatchetMessage.make s.version keys.macKey.toList s.senderRatchetKey chain.index
      s.previousCounter body s.localIdentity s.remoteIdentity
    let wrapped :=
      match s.pending with
      | some p =>
        .preKey (.make s.version s.localRegistrationId p.preKeyId p.signedPreKeyId p.baseKey
          s.localIdentity message)
      | none => .ratchet message
    return (wrapped, s.setSenderChain chain.next)

theorem encryptMeasured_eq (s : State) (plain : Bytes) :
    s.encryptMeasured plain = s.encrypt plain := by
  unfold encryptMeasured encrypt
  simp only [ChainKey.messageKeysMeasured_eq, mapError_of_ok, encryptBody_eq]
  rfl

/-- The receiver chain of a ratchet key, after a ratchet step if the key is new. -/
def receivingChainMeasured (c : Config) (s : State)
    (their : PublicKey) : Attempt SessionError (ChainKey × State) :=
  match s.receiverChain? their with
  | some chain => return (chain, s)
  | none => do
    let (root, chain) ← receivingChain.liftExcept
        (s.rootKey.createChainMeasured their s.sender.keyPair.privateKey)
    let fresh ← Draw.keyPair
    let (root, sending) ← receivingChain.liftExcept
        (root.createChainMeasured their fresh.privateKey)
    let (_, stepped) := { s with rootKey := root }.addReceiverChain their chain c.maxReceiverChains
    let previous := s.sender.chain.index.toNat - 1
    return (chain,
      { stepped with previousCounter := UInt32.ofNat previous, sender := ⟨fresh, sending⟩ })

theorem receivingChainMeasured_eq (c : Config) (s : State) (their : PublicKey) :
    s.receivingChainMeasured c their = s.receivingChain c their := by
  unfold receivingChainMeasured
  simp only [RootKey.createChainMeasured_eq]
  rfl

/-- Caches the keys of a number of links of a chain. -/
def cacheLinksMeasured (c : Config) (now : UInt64) (their : PublicKey) :
    (count : Nat) → ChainKey → State → Except KeyFault State
  | 0, _, s => .ok s
  | count + 1, chain, s => do
    let keys ← chain.messageKeysMeasured
    cacheLinksMeasured c now their count chain.next (s.cacheKeys their keys now c.maxSkippedKeys).2

@[simp] theorem cacheLinksMeasured_eq (c : Config) (now : UInt64) (their : PublicKey) (count : Nat)
    (chain : ChainKey) (s : State) :
    cacheLinksMeasured c now their count chain s = .ok (cacheLinks c now their count chain s) := by
  induction count generalizing chain s with
  | zero => rfl
  | succ count ih =>
    rw [cacheLinksMeasured, ChainKey.messageKeysMeasured_eq]
    exact ih chain.next _

/-- The keys of the message at a counter. -/
def keysAtMeasured (c : Config) (now : UInt64) (s : State) (their : PublicKey) (chain : ChainKey)
    (counter : UInt32) :
    Except SessionError (MessageKeys × State) :=
  if counter < chain.index then
    match s.takeKeys? their counter with
    | some taken => .ok taken
    | none => .error (.message (.duplicate chain.index counter))
  else
    let jump := counter - chain.index
    if c.maxForwardJump < jump ∨ counter.toNat = UInt32.size - 1 then
      .error (.message (.tooManySkipped counter jump c.maxForwardJump))
    else do
      let cached ← (cacheLinksMeasured c now their jump.toNat chain s).mapError .ofKey
      let link := chain.advance jump.toNat
      let moved ← (cached.setReceiverChain their link.next).mapError .session
      return (← link.messageKeysMeasured.mapError .ofKey, moved)

theorem keysAtMeasured_eq (c : Config) (now : UInt64) (s : State) (their : PublicKey)
    (chain : ChainKey) (counter : UInt32) :
    keysAtMeasured c now s their chain counter = keysAt c now s their chain counter := by
  unfold keysAtMeasured keysAt
  simp only [cacheLinksMeasured_eq, ChainKey.messageKeysMeasured_eq,
    mapError_of_ok, bind, Except.bind]
  cases (cacheLinks c now their (counter - chain.index).toNat chain s).setReceiverChain their
    (chain.advance (counter - chain.index).toNat).next <;> rfl

/-- Reads a message on a state. -/
def decryptMeasured (c : Config) (now : UInt64) (s : State) (m : RatchetMessage) :
    Attempt SessionError (Bytes × State) := do
  if m.version ≠ s.version then throw (.session (.unsupportedVersion m.version))
  let (chain, s) ← (s.expire c now).receivingChainMeasured c m.ratchetKey
  let (keys, s) ← ExceptT.mk (pure (keysAtMeasured c now s m.ratchetKey chain m.counter))
  if !m.verify s.remoteIdentity s.localIdentity keys.macKey.toList then throw (.message .invalid)
  match decryptBody m.body keys.cipherKey.toList keys.iv.toList with
  | .ok plain => return (plain, { s with pending := none })
  | .error _ => throw (.message .invalid)

theorem decryptMeasured_eq (c : Config) (now : UInt64) (s : State) (m : RatchetMessage) :
    s.decryptMeasured c now m = s.decrypt c now m := by
  have hbody : ∀ (keys : MessageKeys) (t : State),
      (match decryptBody m.body keys.cipherKey.toList keys.iv.toList with
        | .ok plain => return (plain, { t with pending := none })
        | .error _ => throw (.message .invalid) : Attempt SessionError (Bytes × State)) =
      match Cbc.decrypt (Suite.cipher keys.cipherKey) keys.iv m.body with
        | some plain => return (plain, { t with pending := none })
        | none => throw (.message .invalid) := by
    intro keys t
    rw [decryptBody_eq]
    cases Cbc.decrypt (Suite.cipher keys.cipherKey) keys.iv m.body <;> rfl
  unfold decryptMeasured
  simp only [receivingChainMeasured_eq, keysAtMeasured_eq, hbody]
  rfl

end State

end DoubleRatchet
