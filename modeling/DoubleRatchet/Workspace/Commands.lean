import DoubleRatchet.Session.Engine
import DoubleRatchet.Snapshot
import DoubleRatchet.Text.BundleText
import DoubleRatchet.Wire.Envelope
import DoubleRatchet.Workspace.Files

/-!
# Commands on store files

Each command opens a sealed store file, works on the stores, and saves them
before anything that depends on the new state is handed out.
-/
namespace DoubleRatchet

/-- Why a command fails. -/
inductive CommandFault
  | session (error : SessionError)
  | wire (fault : WireFault)
  | snapshot (fault : SnapshotFault)
  | notWritten (fault : FileFault)
  | alreadyExists (file : String)
  | unreadable (file : String)
  | unreadableBundle (file : String)
  | malformedBundle
  | truncatedEnvelope
  | trailingBytes (count : Nat)
deriving DecidableEq

def CommandFault.message : CommandFault → String
  | session error => error.render
  | wire fault => fault.message
  | snapshot fault => fault.message
  | notWritten fault => fault.message
  | alreadyExists file => file ++ " already exists (use --force to replace it)"
  | unreadable file => "failed to read " ++ file
  | unreadableBundle file => "failed to read bundle: " ++ file
  | malformedBundle => "malformed bundle"
  | truncatedEnvelope => "truncated message envelope"
  | trailingBytes count => s!"{count} trailing bytes after message envelope"

/-- What commands work on: files and a supply of random bytes. -/
structure Workspace where
  files : Files
  entropy : Entropy

abbrev Command := ExceptT CommandFault (StateM Workspace)

namespace Command

variable {α : Type}

def draw (x : Draw α) : Command α := modifyGet fun w =>
  let (a, entropy) := x w.entropy
  (a, { w with entropy })

/-- Runs an operation of a device on stores, and gives the stores after it. -/
def onStores (s : Stores) (x : Action SessionError α) : Command (α × Stores) := do
  let (result, device) := x ⟨s, (← get).entropy⟩
  modify fun w => { w with entropy := device.entropy }
  match result with
  | .ok a => return (a, device.stores)
  | .error e => throw (.session e)

def ofExcept {ε : Type} (fault : ε → CommandFault) (x : Except ε α) : Command α :=
  ExceptT.mk (pure (x.mapError fault))

/-- The stores in a file. -/
def load (file password : String) : Command Stores := do
  match (← get).files.read? file with
  | none => throw (.unreadable file)
  | some bs => ofExcept .snapshot (Snapshot.open? bs password)

/-- Replaces a file as a whole. -/
def write (file : String) (content : Bytes) : Command Unit := do
  let (result, files) := (← get).files.replace file content
  modify fun w => { w with files }
  ofExcept .notWritten result

/-- Seals stores into a file. -/
def save (file password : String) (s : Stores) : Command Unit := do
  write file
    (← ofExcept .snapshot (← draw (Snapshot.make s password Snapshot.defaultIterations).run))

variable [Suite]

/-- Makes a new identity with its pre-keys, and refuses to replace a file unless forced. -/
def init (file password : String) (deviceId : UInt32) (preKeys : Nat) (force : Bool)
    (now : UInt64) :
    Command Unit := do
  if (← get).files.contains file && !force then throw (.alreadyExists file)
  let identity ← draw Draw.keyPair
  let stores := Stores.create identity (← draw Draw.registrationId)
  let (_, stores) ← onStores stores (PreKeys.generateBundle deviceId 1 preKeys now)
  save file password stores

/-- The first identifier after those of the stored one-time pre-keys. -/
def nextPreKeyId (s : Stores) : Nat :=
  match s.preKeys.maxKey? with
  | none => 1
  | some id => min (id.toNat + 1) (UInt32.size - 1)

/-- The bundle to publish, after making one-time pre-keys if they are wanted and run low. -/
def bundle (file password : String) (deviceId : UInt32)
    (replenish : Bool) : Command PublishedBundle := do
  let stores ← load file password
  let missing := if replenish then PreKeys.missing stores else 0
  if missing = 0 then ofExcept .session (PreKeys.currentBundle stores deviceId)
  else
    let (_, stores) ← onStores stores (PreKeys.generate (nextPreKeyId stores) missing)
    save file password stores
    ofExcept .session (PreKeys.currentBundle stores deviceId)

/-- A bundle in a file. -/
def readBundle (file : String) : Command PublishedBundle := do
  match ((← get).files.read? file).bind ofUtf8? with
  | none => throw (.unreadableBundle file)
  | some s =>
    match PublishedBundle.ofText? s with
    | some b => return b
    | none => throw .malformedBundle

/-- Starts a session from a bundle in a file. -/
def establish (c : Config) (file password : String) (peer : Address)
    (bundleFile : String) : Command Unit := do
  let stores ← load file password
  let published ← readBundle bundleFile
  let (_, stores) ← onStores stores (Engine.establish c peer published)
  save file password stores

/-- Encrypts a message and gives its frame. -/
def encrypt (file password : String) (peer : Address) (plain : Bytes) : Command Bytes := do
  let stores ← load file password
  let (m, stores) ← onStores stores (Engine.encrypt peer plain)
  let framed ← ofExcept .wire (Envelope.encode m)
  save file password stores
  return framed

/-- Decrypts the message of a frame, after which nothing may follow. `now` is in unix seconds. -/
def decrypt (c : Config) (now : UInt64) (file password : String) (peer : Address) (framed : Bytes) :
    Command Bytes := do
  let stores ← load file password
  let (first, rest) := Envelope.next framed
  match ← ofExcept .wire first with
  | none => throw .truncatedEnvelope
  | some m =>
    if rest ≠ [] then throw (.trailingBytes rest.length)
    let (plain, stores) ← onStores stores (Engine.decrypt c now peer m)
    save file password stores
    return plain

/-- A line for the session with a peer. -/
def describeSession (peer : Address) (r : Record) : String :=
  peer.render ++
    match r.current with
    | none => s!": no current session, archived {r.previous.length}"
    | some s =>
      s!": v{s.version} sender {s.senderRatchetKey.fingerprint} @{s.sender.chain.index}" ++
        s!" receiver chains {s.receivers.length} skipped keys {s.skipped.size}" ++
        s!" archived {r.previous.length}" ++ if s.pending.isSome then " (unacknowledged)" else ""

/-- A line for the identity and one for each session. -/
def describe (s : Stores) : List String :=
  (s!"identity {s.identity.keyPair.publicKey.fingerprint}" ++
    s!" registration {s.identity.registrationId} one-time pre-keys {s.preKeys.size}") ::
    s.sessions.entries.map fun (peer, r) => describeSession peer r

def inspect (file password : String) : Command (List String) :=
  return describe (← load file password)

end Command

end DoubleRatchet
