import DoubleRatchet.Proofs.Wire.Envelope
import Mathlib.Data.List.Forall2

/-!
# Streams of frames

Bytes arrive in chunks. After each chunk the receiver takes frames off its
buffer for as long as there are any. What it takes off depends on the bytes
alone and not on how they were cut, and the frames of a list of messages give
back that list. Main statement: `stream_decoding`.
-/
namespace DoubleRatchet.Envelope

/-- What was taken off a stream: of each frame its message or why there is none,
then the fault of a length out of bounds, if one was met, and what is left. -/
structure Decoded where
  contents : List (Except WireFault Message)
  broken : Option WireFault
  left : Bytes

/-- The same with the content of a frame in front. -/
def Decoded.after (content : Except WireFault Message) (d : Decoded) : Decoded :=
  { d with contents := content :: d.contents }

theorem length_of_next_some {buffer left : Bytes} {m : Message}
    (h : next buffer = (.ok (some m), left)) :
    left.length < buffer.length := by
  rcases front buffer with hincomplete | ⟨fault, hbroken⟩ | ⟨number, body, rest, hbody, rfl⟩
  · rw [next_of_incomplete hincomplete] at h
    cases h
  · rw [next_of_broken hbroken] at h
    cases h
  · rw [next_frame number hbody] at h
    obtain ⟨-, rfl⟩ := Prod.mk.inj h
    rw [List.length_append, length_frame]
    omega

/-- Takes frames off a buffer until a call takes nothing off. -/
def drain (buffer : Bytes) : Decoded :=
  match _hnext : next buffer with
  | (.ok none, left) => ⟨[], none, left⟩
  | (.ok (some m), left) => (drain left).after (.ok m)
  | (.error fault, left) =>
    if left.length < buffer.length then (drain left).after (.error fault)
    else ⟨[], some fault, left⟩
termination_by buffer.length
decreasing_by
  · exact length_of_next_some _hnext
  · assumption

/-- A chunk arrives at the end of the buffer. -/
def Decoded.receive (d : Decoded) (chunk : Bytes) : Decoded :=
  let more := drain (d.left ++ chunk)
  { more with contents := d.contents ++ more.contents }

/-- All chunks arrive, one after the other. -/
def receiveAll (chunks : List Bytes) : Decoded := chunks.foldl Decoded.receive ⟨[], none, []⟩

theorem drain_of_incomplete {buffer : Bytes} (h : Incomplete buffer) :
    drain buffer = ⟨[], none, buffer⟩ := by
  have hcall := next_of_incomplete h
  rw [drain]
  split <;> simp_all

theorem drain_of_broken {buffer : Bytes} {fault : WireFault} (h : Broken buffer fault) :
    drain buffer = ⟨[], some fault, buffer⟩ := by
  have hcall := next_of_broken h
  rw [drain]
  split <;> simp_all

theorem drain_frame (number : UInt8) {body : Bytes} (hbody : body.length < limit) (rest : Bytes) :
    drain (frame number body ++ rest) = (drain rest).after (Message.parse number body) := by
  have hcall := next_frame number hbody rest
  have hshorter : rest.length < (frame number body ++ rest).length := by
    rw [List.length_append, length_frame]
    omega
  rw [drain]
  cases hparse : Message.parse number body with
  | ok m =>
    rw [hparse] at hcall
    split <;> simp_all [Functor.map, Except.map]
  | error fault =>
    rw [hparse] at hcall
    split <;> simp_all [Functor.map, Except.map]

/-- Taking frames off goes on where it stopped when more bytes come. -/
theorem drain_append (a b : Bytes) : drain (a ++ b) = (drain a).receive b := by
  -- on the length: a frame that is taken off leaves less, and what stops on `a` alone takes
  -- nothing off
  induction hlength : a.length using Nat.strongRecOn generalizing a with
  | ind length ih =>
    rcases front a with hincomplete | ⟨fault, hbroken⟩ | ⟨number, body, rest, hbody, rfl⟩
    · rw [drain_of_incomplete hincomplete]
      rfl
    · rw [drain_of_broken hbroken]
      rfl
    · rw [List.append_assoc, drain_frame number hbody, drain_frame number hbody]
      rw [List.length_append, length_frame] at hlength
      rw [ih rest.length (by omega) rest rfl]
      rfl

theorem drain_nil : drain [] = ⟨[], none, []⟩ := drain_of_incomplete (.inl (by decide))

/-- The cuts between the chunks do not matter. -/
theorem receiveAll_eq_drain (chunks : List Bytes) : receiveAll chunks = drain chunks.flatten := by
  have hfrom (front : Bytes) :
      chunks.foldl Decoded.receive (drain front) = drain (front ++ chunks.flatten) := by
    induction chunks generalizing front with
    | nil => rw [List.flatten_nil, List.append_nil, List.foldl_nil]
    | cons chunk chunks ih =>
      rw [List.foldl_cons, ← drain_append, ih, List.flatten_cons, List.append_assoc]
  rw [receiveAll, ← drain_nil, hfrom, List.nil_append]

theorem Broken.append {buffer : Bytes} {fault : WireFault} (h : Broken buffer fault)
    (more : Bytes) :
    Broken (buffer ++ more) fault := by
  have hdeclared {length : Nat} (h : declared? buffer = some length) :
      declared? (buffer ++ more) = some length := by
    obtain ⟨header, rest, rfl, hheader, rfl⟩ := declared?_eq_some h
    rw [List.append_assoc, declared?_of_header hheader]
  cases h with
  | large h hlarge => exact .large (hdeclared h) hlarge
  | empty h => exact .empty (hdeclared h)

/-- A fault stands at the front of what is left. -/
theorem broken_of_drain {buffer : Bytes} {fault : WireFault}
    (h : (drain buffer).broken = some fault) :
    Broken (drain buffer).left fault := by
  induction hlength : buffer.length using Nat.strongRecOn generalizing buffer with
  | ind length ih =>
    rcases front buffer with hincomplete | ⟨fault, hbroken⟩ | ⟨number, body, rest, hbody, rfl⟩
    · rw [drain_of_incomplete hincomplete] at h
      cases h
    · rw [drain_of_broken hbroken] at h ⊢
      cases h
      exact hbroken
    · rw [drain_frame number hbody] at h ⊢
      rw [List.length_append, length_frame] at hlength
      exact ih rest.length (by omega) h rfl

/-- Nothing is taken off after a fault: what still comes stays in the buffer. -/
theorem receiveAll_append_of_broken {chunks : List Bytes} {fault : WireFault}
    (h : (receiveAll chunks).broken = some fault) (more : List Bytes) :
    receiveAll (chunks ++ more) =
      ⟨(receiveAll chunks).contents, some fault, (receiveAll chunks).left ++ more.flatten⟩ := by
  rw [receiveAll_eq_drain] at h
  have hbroken := (broken_of_drain h).append more.flatten
  rw [receiveAll_eq_drain, receiveAll_eq_drain, List.flatten_append, drain_append, Decoded.receive,
    drain_of_broken hbroken]
  simp only [List.append_nil]

/-- The frames of messages that were made in the current version or read give back the messages. -/
theorem drain_frames [Suite] {messages : List Message} {frames : List Bytes}
    (hgenuine : ∀ m ∈ messages, m.Genuine)
    (hencode : List.Forall₂ (fun m bytes => encode m = .ok bytes) messages frames) :
    drain frames.flatten = ⟨messages.map .ok, none, []⟩ := by
  induction hencode with
  | nil => exact drain_nil
  | @cons m bytes messages frames hm _ ih =>
    obtain ⟨hthis, hrest⟩ := List.forall_mem_cons.mp hgenuine
    obtain ⟨hlength, rfl⟩ := encode_ok.mp hm
    have hparse := hthis.parse_serialized (Nat.lt_trans hlength (by decide))
    rw [List.flatten_cons, drain_frame _ hlength, hparse, ih hrest]
    rfl

/-- Frames are decoded in the same way however a stream is cut, and nothing is
decoded after a length out of bounds. One call takes off nothing or one frame,
with what the direct reader makes of its body. Messages whose frames can be
written come back from them. -/
theorem stream_decoding [Suite] :
    (∀ chunks, receiveAll chunks = drain chunks.flatten) ∧
    (∀ chunks fault, (receiveAll chunks).broken = some fault → ∀ more, receiveAll (chunks ++ more) =
      ⟨(receiveAll chunks).contents, some fault, (receiveAll chunks).left ++ more.flatten⟩) ∧
    (∀ buffer,
      (Incomplete buffer ∧ next buffer = (.ok none, buffer)) ∨
      (∃ fault, Broken buffer fault ∧ next buffer = (.error fault, buffer)) ∨
      ∃ number body rest, body.length < limit ∧ buffer = frame number body ++ rest ∧
        next buffer = (some <$> Message.parse number body, rest)) ∧
    (∀ m, (∃ bytes, encode m = .ok bytes) ↔ m.serialized.length ≤ 65535) ∧
    ∀ messages frames, (∀ m ∈ messages, m.Genuine) →
      List.Forall₂ (fun m bytes => encode m = .ok bytes) messages frames →
      drain frames.flatten = ⟨messages.map .ok, none, []⟩ := by
  refine ⟨receiveAll_eq_drain, fun _ _ h => receiveAll_append_of_broken h,
    fun buffer => ?_, fun m => ?_, fun _ _ => drain_frames⟩
  · rcases front buffer with hincomplete | ⟨fault, hbroken⟩ | ⟨number, body, rest, hbody, rfl⟩
    · exact .inl ⟨hincomplete, next_of_incomplete hincomplete⟩
    · exact .inr (.inl ⟨fault, hbroken, next_of_broken hbroken⟩)
    · exact .inr (.inr ⟨number, body, rest, hbody, rfl, next_frame number hbody rest⟩)
  · simp only [encode_ok, exists_and_left, exists_eq, and_true]
    exact Nat.lt_succ_iff

end DoubleRatchet.Envelope

namespace DoubleRatchet

/-- A message of three bytes between two made-up identities. -/
def Small.word : RatchetMessage :=
  @RatchetMessage.make suite currentVersion [3] ⟨.fill 32 5⟩ 7 0 [1, 2, 3] ⟨.fill 32 1⟩ ⟨.fill 32 2⟩

/-- A first message around it. -/
def Small.wrapped : PreKeyMessage :=
  .make currentVersion 16380 none 300 ⟨.fill 32 4⟩ ⟨.fill 32 1⟩ word

/-- Two frames cut inside a header; and a frame, a length of zero, and a frame that is
not reached. -/
theorem Envelope.stream_decoding_cut : ∃ first second, encode (.ratchet Small.word) = .ok first ∧
    encode (.preKey Small.wrapped) = .ok second ∧
    receiveAll [first ++ second.take 2, second.drop 2] =
      ⟨[.ok (.ratchet Small.word), .ok (.preKey Small.wrapped)], none, []⟩ ∧
    receiveAll ([first, [0, 0, 0, 0]] ++ [second]) =
      ⟨[.ok (.ratchet Small.word)], some (.messageTooShort 1 0), [0, 0, 0, 0] ++ second⟩ := by
  let := Small.suite
  obtain ⟨hchunks, hbroken, -, hencode, hframes⟩ := stream_decoding
  have hword : Small.word.Genuine := .made ..
  have hwrapped : (Message.preKey Small.wrapped).Genuine := .made _ _ _ _ _ hword
  obtain ⟨first, hfirst⟩ := (hencode (.ratchet Small.word)).mpr (by decide +kernel)
  obtain ⟨second, hsecond⟩ := (hencode (.preKey Small.wrapped)).mpr (by decide +kernel)
  have hboth := hframes [.ratchet Small.word, .preKey Small.wrapped] [first, second]
    (List.forall_mem_cons.mpr ⟨.ratchet hword, List.forall_mem_singleton.mpr hwrapped⟩)
    (.cons hfirst (.cons hsecond .nil))
  have hone :=
    hframes [.ratchet Small.word] [first] (List.forall_mem_singleton.mpr (.ratchet hword))
    (.cons hfirst .nil)
  have hzero : receiveAll [first, [0, 0, 0, 0]] =
      ⟨[.ok (.ratchet Small.word)], some (.messageTooShort 1 0), [0, 0, 0, 0]⟩ := by
    have hheader : drain [0, 0, 0, 0] = ⟨[], some (.messageTooShort 1 0), [0, 0, 0, 0]⟩ :=
      drain_of_broken (.empty rfl)
    rw [List.flatten_cons, List.flatten_nil, List.append_nil] at hone
    rw [hchunks, List.flatten_cons, drain_append, hone]
    simp only [Decoded.receive, List.flatten_cons, List.flatten_nil, List.append_nil,
      List.nil_append, hheader]
    rfl
  refine ⟨first, second, hfirst, hsecond, ?_, ?_⟩
  · rw [hchunks]
    simpa using hboth
  · rw [hbroken _ _ (congrArg Decoded.broken hzero), hzero]
    simp

end DoubleRatchet
