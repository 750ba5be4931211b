import DoubleRatchet.Session.Engine
import DoubleRatchet.Text.JsonPrinter
import DoubleRatchet.Wire.Envelope

/-!
# A conversation of two parties

Two new parties set up a session from a published bundle and send each other
messages in rounds, over streams of frames. The messages of a batch may arrive
in any order, and one of them may arrive twice. A report counts what happened.
-/
namespace DoubleRatchet

/-- A way to put items in random order. Which order comes out and what is drawn
for it is left open: it may depend on the items and on the stream in any way. -/
class Shuffler where
  shuffle {α : Type} (items : List α) : Draw (List α)
  perm {α : Type} (items : List α) (e : Entropy) : (shuffle items e).1.Perm items

namespace Simulation

structure Options where
  rounds : Nat
  messagesPerRound : Nat
  /-- Deliver each batch in random order. -/
  shuffle : Bool
  /-- Deliver the first message of each batch again at its end. -/
  replay : Bool
deriving DecidableEq

structure Report where
  sent : Nat := 0
  decrypted : Nat := 0
  replaysRejected : Nat := 0
  failures : List String := []
deriving DecidableEq

/-- Whether every message was delivered and nothing failed. -/
def Report.isClean (r : Report) : Bool := r.failures.isEmpty && r.decrypted == r.sent

def Report.fail (r : Report) (text : String) : Report := { r with failures := r.failures ++ [text] }

def Report.toJson (r : Report) : String :=
  Json.writeFields [
    ("sent", toString r.sent),
    ("decrypted", toString r.decrypted),
    ("replays_rejected", toString r.replaysRejected),
    ("failures", Json.writeList Json.writeText r.failures)]

/-- Why a conversation does not take place. -/
inductive Fault
  | config (fault : SessionFault)
  | session (error : SessionError)
  | wire (fault : WireFault)
deriving DecidableEq

def Fault.message : Fault → String
  | config fault => fault.message
  | session error => error.render
  | wire fault => fault.message

structure Party where
  name : String
  stores : Stores

def Party.address (p : Party) : Address := ⟨p.name, 1⟩

abbrev Run := ExceptT Fault Draw

variable {α : Type}

/-- An operation of a party, and the party after it. -/
def Party.act (p : Party) (x : Action SessionError α) : Draw (Except SessionError α × Party) :=
  fun e =>
  let (result, device) := x ⟨p.stores, e⟩
  ((result, { p with stores := device.stores }), device.entropy)

/-- An operation of a party that has to succeed. -/
def Party.must (p : Party) (x : Action SessionError α) : Run (α × Party) := do
  let (result, p) ← (p.act x : Draw _)
  match result with
  | .ok a => return (a, p)
  | .error e => throw (.session e)

def ofWire (x : Except WireFault α) : Run α := ExceptT.mk (pure (x.mapError .wire))

variable [Suite]

def Party.new (name : String) : Draw Party := do
  let identity ← Draw.keyPair
  return ⟨name, Stores.create identity (← Draw.registrationId)⟩

/-- The texts and frames of a number of messages, from number `i` on. -/
def writeBatch (round : Nat) (receiver : Address) :
    (count i : Nat) → Party → Run (List (String × Bytes) × Party)
  | 0, _, sender => return ([], sender)
  | count + 1, i, sender => do
    let text := s!"{sender.name} round {round} #{i}"
    let (m, sender) ← sender.must (Engine.encrypt receiver (utf8 text))
    let frame ← ofWire (Envelope.encode m)
    let (more, sender) ← writeBatch round receiver count (i + 1) sender
    return ((text, frame) :: more, sender)

/-- What the outcome of a delivery adds to the report; a replay is to be rejected. -/
def Report.deliver (r : Report) (wanted : Option String) : Except SessionError Bytes → Report
  | .ok plain =>
    match wanted with
    | some text =>
      if plain = utf8 text then { r with decrypted := r.decrypted + 1 }
      else r.fail ("garbled: " ++ text)
    | none => r.fail "replay was accepted"
  | .error e =>
    match wanted, e with
    | none, .message (.duplicate ..) => { r with replaysRejected := r.replaysRejected + 1 }
    | _, _ => r.fail e.render

/-- Reads messages off the stream, each with the text it should have. -/
def readBatch (c : Config) (now : UInt64) (sender : Address) :
    (wanted : List (Option String)) → (stream : Bytes) → Party → Report → Run (Party × Report)
  | [], _, receiver, report => return (receiver, report)
  | text :: wanted, stream, receiver, report => do
    let (first, stream) := Envelope.next stream
    match ← ofWire first with
    | none => return (receiver, report.fail "transport ended early")
    | some m =>
      let (outcome, receiver) ← (receiver.act (Engine.decrypt c now sender m) : Draw _)
      readBatch c now sender wanted stream receiver (report.deliver text outcome)

variable [Shuffler]

/-- A batch in the order in which its messages are to arrive, and its sender afterwards. -/
def dispatch (o : Options) (round : Nat) (sender : Party) (receiver : Address) :
    Run (List (String × Bytes) × Party) := do
  let (batch, sender) ← writeBatch round receiver o.messagesPerRound 0 sender
  let batch ← if o.shuffle then (Shuffler.shuffle batch : Draw _) else pure batch
  return (batch, sender)

/-- A batch arrives on one stream, for a replay with its first message again at the end. -/
def deliver (o : Options) (c : Config) (now : UInt64) (sender : Address)
    (batch : List (String × Bytes)) (receiver : Party) (report : Report) : Run (Party × Report) :=
  let again := if o.replay then batch.take 1 else []
  let stream := (batch ++ again).flatMap Prod.snd
  let wanted := batch.map (fun b => some b.1) ++ again.map fun _ => none
  readBatch c now sender wanted stream receiver { report with sent := report.sent + batch.length }

/-- One batch from one party to the other. -/
def exchange (o : Options) (c : Config) (now : UInt64) (round : Nat) (sender receiver : Party)
    (report : Report) :
    Run (Party × Party × Report) := do
  let (batch, sender) ← dispatch o round sender receiver.address
  let (receiver, report) ← deliver o c now sender.address batch receiver report
  return (sender, receiver, report)

/-- A number of rounds, in each of which both parties send. -/
def converse (o : Options) (c : Config) (now : UInt64) :
    (count round : Nat) → Party → Party → Report → Run Report
  | 0, _, _, _, report => return report
  | count + 1, round, alice, bob, report => do
    let (alice, bob, report) ← exchange o c now round alice bob report
    let (bob, alice, report) ← exchange o c now round bob alice report
    converse o c now count (round + 1) alice bob report

/-- Two new parties, of which the first has started a session from the bundle of the second. -/
def meet (c : Config) (now : UInt64) : Run (Party × Party) := do
  let alice ← (Party.new "alice" : Draw _)
  let bob ← (Party.new "bob" : Draw _)
  let (published, bob) ← bob.must (PreKeys.generateBundle 1 1 10 now)
  let fetched ← ofWire (PublishedBundle.decode published.encode)
  let (_, alice) ← alice.must (Engine.establish c bob.address fetched)
  return (alice, bob)

/-- A whole conversation; `now` is in unix milliseconds. -/
def run (o : Options) (c : Config) (now : UInt64) : Run Report := do
  ExceptT.mk (pure (c.validate.mapError .config))
  let (alice, bob) ← meet c now
  converse o c (now / 1000) o.rounds 0 alice bob {}

end Simulation

end DoubleRatchet
