import DoubleRatchet.Address
import DoubleRatchet.Simulation

/-!
# Command lines

A command line names a command and gives its options, in any order. An option
that has a value is followed by it; a switch stands alone. What is neither is
taken in order, the command first.
-/
namespace DoubleRatchet

/-- Why a command line is not understood. -/
inductive ArgumentFault
  | unknownOption (name : String)
  | missingValue (name : String)
  | missing (name : String)
  | badNumber (name value : String)
  | unknownCommand (name : String)
  | noCommand
  | unexpected (word : String)
deriving DecidableEq

def ArgumentFault.message : ArgumentFault → String
  | unknownOption name => "unexpected argument " ++ name
  | missingValue name => "a value is required for " ++ name
  | missing name => "missing argument " ++ name
  | badNumber name value => "invalid value " ++ value ++ " for " ++ name
  | unknownCommand name => "unrecognized subcommand " ++ name
  | noCommand => "no subcommand"
  | unexpected word => "unexpected argument " ++ word

/-- What is asked of a store file. -/
inductive StoreRequest
  | init (preKeys : Nat) (deviceId : Option UInt32) (force : Bool)
  | bundle (replenish : Bool) (deviceId : Option UInt32)
  | inspect
  | establish (peer : Address) (bundleFile : String)
  | encrypt (peer : Address) (text outFile : String)
  | decrypt (peer : Address) (inFile : String)
deriving DecidableEq

/-- What a command line asks for. -/
inductive Request
  | onStore (request : StoreRequest)
  | simulate (options : Simulation.Options) (seed : Option UInt64)
deriving DecidableEq

/-- The words of a command line by their kind. -/
structure Words where
  values : List (String × String) := []
  switches : List String := []
  plain : List String := []
deriving DecidableEq

/-- A request with the options that go with every command. -/
structure Arguments where
  configFile : Option String
  storeFile : Option String
  password : Option String
  request : Request
deriving DecidableEq

namespace Words

/-- The options that have a value. -/
def valued : List String :=
  ["--config", "-c", "--store", "--password", "--prekeys", "--device-id", "--peer",
    "--peer-device", "--message", "--out", "--rounds", "--messages", "--seed"]

def switchNames : List String := ["--force", "--replenish", "--shuffle", "--replay"]

/-- Sorts the words of a command line. -/
def read : List String → Except ArgumentFault Words
  | [] => .ok {}
  | [word] =>
    if valued.contains word then .error (.missingValue word)
    else if switchNames.contains word then .ok { switches := [word] }
    else if word.startsWith "-" then .error (.unknownOption word)
    else .ok { plain := [word] }
  | word :: next :: rest =>
    if valued.contains word then do
      let more ← read rest
      return { more with values := (word, next) :: more.values }
    else if switchNames.contains word then do
      let more ← read (next :: rest)
      return { more with switches := word :: more.switches }
    else if word.startsWith "-" then .error (.unknownOption word)
    else do
      let more ← read (next :: rest)
      return { more with plain := word :: more.plain }

def value? (w : Words) (name : String) : Option String := w.values.lookup name

def has (w : Words) (name : String) : Bool := w.switches.contains name

def value (w : Words) (name : String) : Except ArgumentFault String :=
  match w.value? name with
  | some v => .ok v
  | none => .error (.missing name)

/-- The number that an option gives, below `2 ^ bits`. -/
def number? (w : Words) (name : String) (bits : Nat) : Except ArgumentFault (Option Nat) :=
  match w.value? name with
  | none => .ok none
  | some v =>
    match v.toNat? with
    | some n => if n < 1 <<< bits then .ok (some n) else .error (.badNumber name v)
    | none => .error (.badNumber name v)

def numberD (w : Words) (name : String) (bits default : Nat) : Except ArgumentFault Nat := do
  return (← w.number? name bits).getD default

def peer (w : Words) : Except ArgumentFault Address := do
  return ⟨← w.value "--peer", UInt32.ofNat (← w.numberD "--peer-device" 32 1)⟩

/-- The one plain word after the command. -/
def operand (name : String) : List String → Except ArgumentFault String
  | [] => .error (.missing name)
  | [word] => .ok word
  | _ :: word :: _ => .error (.unexpected word)

/-- The request of a command and the plain words after it. -/
def request (w : Words) (command : String) (rest : List String) : Except ArgumentFault Request := do
  let deviceId := (← w.number? "--device-id" 32).map UInt32.ofNat
  match command with
  | "init" =>
    return .onStore
      (.init (← w.numberD "--prekeys" 32 PreKeys.initialCount) deviceId (w.has "--force"))
  | "bundle" => return .onStore (.bundle (w.has "--replenish") deviceId)
  | "inspect" => return .onStore .inspect
  | "establish" => return .onStore (.establish (← w.peer) (← operand "BUNDLE" rest))
  | "encrypt" => return .onStore (.encrypt (← w.peer) (← w.value "--message") (← w.value "--out"))
  | "decrypt" => return .onStore (.decrypt (← w.peer) (← operand "INPUT" rest))
  | "simulate" =>
    let options := ⟨← w.numberD "--rounds" 32 3, ← w.numberD "--messages" 32 5,
      w.has "--shuffle", w.has "--replay"⟩
    return .simulate options ((← w.number? "--seed" 64).map UInt64.ofNat)
  | _ => throw (.unknownCommand command)

end Words

/-- Reads a command line. -/
def Arguments.read (line : List String) : Except ArgumentFault Arguments := do
  let w ← Words.read line
  match w.plain with
  | [] => throw .noCommand
  | command :: rest =>
    let request ← w.request command rest
    return ⟨(w.value? "--config").or (w.value? "-c"), w.value? "--store",
      w.value? "--password", request⟩

end DoubleRatchet
