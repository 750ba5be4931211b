import DoubleRatchet.Standard
import DoubleRatchet.Text.Settings
import DoubleRatchet.Workspace.Arguments
import DoubleRatchet.Workspace.Commands
import Std.Time.DateTime.Timestamp

/-!
# The command line

Reads the arguments, the files that a command needs, the clock and a seed, runs
the command, and saves the files that it changed. A file is saved by writing a
file beside it, which then takes its name.
-/
namespace DoubleRatchet.CommandLine

local instance : Suite := Suite.standard

variable {α ε : Type}

def fail (text : String) : IO α := throw (IO.userError text)

def ofExcept (message : ε → String) : Except ε α → IO α
  | .ok a => return a
  | .error e => fail (message e)

/-- The content of a file, if there is one. -/
def readFile? (path : String) : IO (Option Bytes) := do
  try return some (← IO.FS.readBinFile path).toList
  catch
    | .noFileOrDirectory .. | .inappropriateType .. => return none
    | e => throw e

def writeFile (path : String) (bs : Bytes) : IO Unit := IO.FS.writeBinFile path ⟨bs.toArray⟩

def saveFile (path : String) (bs : Bytes) : IO Unit := do
  writeFile (Files.besidePath path) bs
  IO.FS.rename (Files.besidePath path) path

/-- Unix milliseconds. -/
def now : IO UInt64 := do
  return UInt64.ofNat (← Std.Time.Timestamp.now).toMillisecondsSinceUnixEpoch.val.toNat

def freshEntropy : IO Entropy := return .ofSeed (← IO.getRandomBytes 32).toList

/-- Runs a command on the files at some paths. -/
def runCommand (paths : List String) (command : Command α) : IO α := do
  let before : Files ← paths.foldlM (fun fs path => do
    match ← readFile? path with
    | some bs => return ⟨fs.table.insert path bs⟩
    | none => return fs) {}
  let (result, after) := command ⟨before, ← freshEntropy⟩
  for path in paths do
    if let some bs := after.files.read? path then
      if before.read? path ≠ some bs then saveFile path bs
  ofExcept CommandFault.message result

def readSettings : Option String → IO Settings
  | none => return {}
  | some path => do
    match (← readFile? path).bind ofUtf8? with
    | none => fail ("failed to read config file: " ++ path)
    | some text =>
      match Settings.ofText? text with
      | some settings => return settings
      | none => fail ("malformed config file: " ++ path)

/-- The environment variable that gives the password when no option does. -/
def passwordVariable : String := "AXOLOTL_STORE_PASSWORD"

def readPassword (given : Option String) : IO String := do
  match given.or (← IO.getEnv passwordVariable) with
  | some password =>
    if password.isEmpty then fail ("no store password: pass --password or set " ++ passwordVariable)
    else return password
  | none => fail ("no store password: pass --password or set " ++ passwordVariable)

/-- Answers a request about a store file. -/
def answer (settings : Settings) (store password : String) : StoreRequest → IO Unit
  | .init preKeys deviceId force => do
    runCommand [store]
      (Command.init store password (deviceId.getD settings.deviceId) preKeys force (← now))
  | .bundle replenish deviceId => do
    let b ← runCommand [store]
        (Command.bundle store password (deviceId.getD settings.deviceId) replenish)
    IO.println b.toJson
  | .inspect => do
    for line in ← runCommand [store] (Command.inspect store password) do IO.println line
  | .establish peer bundleFile =>
    runCommand [store, bundleFile]
      (Command.establish settings.session store password peer bundleFile)
  | .encrypt peer text outFile => do
    writeFile outFile (← runCommand [store] (Command.encrypt store password peer (utf8 text)))
  | .decrypt peer inFile => do
    match ← readFile? inFile with
    | none => fail ("failed to read " ++ inFile)
    | some framed =>
      let time := (← now) / 1000
      let plain ← runCommand [store]
          (Command.decrypt settings.session time store password peer framed)
      IO.println ((ofUtf8? plain).getD (hex plain))

/-- Prints the report of a conversation, which fails if the conversation did. -/
def simulate (settings : Settings) (options : Simulation.Options)
    (seed : Option UInt64) : IO Unit := do
  let entropy ← match seed with
    | some n => pure (.ofSeed (bigBytes 8 n.toNat))
    | none => freshEntropy
  let (result, _) := (Simulation.run options settings.session (← now)).run entropy
  let report ← ofExcept Simulation.Fault.message result
  IO.println report.toJson
  if !report.isClean then fail s!"simulation reported {report.failures.length} failures"

def run (line : List String) : IO Unit := do
  let arguments ← ofExcept ArgumentFault.message (Arguments.read line)
  let settings ← readSettings arguments.configFile
  ofExcept SessionFault.message settings.session.validate
  match arguments.request with
  | .simulate options seed => simulate settings options seed
  | .onStore request =>
    let password ← readPassword arguments.password
    answer settings (arguments.storeFile.getD settings.storePath) password request

end DoubleRatchet.CommandLine

def main (line : List String) : IO UInt32 := do
  try
    DoubleRatchet.CommandLine.run line
    return 0
  catch e =>
    IO.eprintln s!"Error: {e}"
    return 1
