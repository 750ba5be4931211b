import DoubleRatchet.Wire.Message

/-!
# Envelopes

On a byte stream a message travels as a frame: the length in four bytes, the
number of its kind, and the message. The length counts the kind and the
message. `Envelope.next` takes one frame off the front of a buffer.
-/
namespace DoubleRatchet.Envelope

/-- The greatest length of a frame after its header. -/
def limit : Nat := 65536

def encode (m : Message) : Except WireFault Bytes :=
  let length := m.serialized.length + 1
  if limit < length then .error (.envelopeTooLarge length)
  else .ok (bigBytes 4 length ++ m.kind.number :: m.serialized)

/-- The message of a frame, by the number of its kind. -/
def content (number : UInt8) (body : Bytes) : Except WireFault Message := do
  match ← MessageKind.ofNumber number with
  | .whisper => return .ratchet (← RatchetMessage.parse body)
  | .preKey => return .preKey (← PreKeyMessage.parse body)

/-- The message of the first frame and what is left of the buffer. A frame is
taken off even if its content cannot be read; nothing is taken off while the
frame is incomplete or when its length is out of bounds. -/
def next (buffer : Bytes) : Except WireFault (Option Message) × Bytes :=
  match splitAt? 4 buffer with
  | none => (.ok none, buffer)
  | some (header, rest) =>
    let length := bigValue header
    if limit < length then (.error (.envelopeTooLarge length), buffer)
    else if length = 0 then (.error (.messageTooShort 1 0), buffer)
    else
      match splitAt? length rest with
      | some (number :: body, rest) => (some <$> content number body, rest)
      | _ => (.ok none, buffer)

end DoubleRatchet.Envelope
