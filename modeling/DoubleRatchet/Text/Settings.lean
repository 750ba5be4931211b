import DoubleRatchet.Config
import DoubleRatchet.Text.Toml

/-!
# Settings as text

The bounds of the engine are read from JSON or TOML, the settings of the
command line from TOML. What is not given keeps its default and names that are
not known are left out; the bounds are not checked against each other here.
-/
namespace DoubleRatchet

namespace Config

/-- The names of the bounds, in order. -/
def names : List String :=
  ["max_skipped_keys", "max_forward_jump", "max_receiver_chains", "max_archived_states",
    "skipped_key_max_age_secs"]

/-- The bounds with the values given by name. -/
def ofGiven (given : List (String × Nat)) : Option Config := do
  let start : Config := {}
  let get (name : String) (bits default : Nat) : Option Nat :=
    let n := (given.lookup name).getD default
    if n < 1 <<< bits then some n else none
  return {
    maxSkippedKeys := ← get "max_skipped_keys" 64 start.maxSkippedKeys
    maxForwardJump := UInt32.ofNat (← get "max_forward_jump" 32 start.maxForwardJump.toNat)
    maxReceiverChains := ← get "max_receiver_chains" 64 start.maxReceiverChains
    maxArchivedStates := ← get "max_archived_states" 64 start.maxArchivedStates
    skippedKeyMaxAge := ← (given.lookup "skipped_key_max_age_secs").mapM fun n =>
      if n < UInt64.size then some (UInt64.ofNat n) else none }

/-- The age may be null, which is no age. -/
def ofJson? (j : Json) : Option Config := do
  let fs ← j.fields? names
  let fs := fs.filter fun (name, v) => !(name = "skipped_key_max_age_secs" && v.isNull)
  ofGiven (← fs.mapM fun (name, v) => (v.word? 64).map (name, ·))

/-- Reads the bounds from a JSON text. -/
def ofJsonText? (s : String) : Option Config := do ofJson? (← Json.parse? s)

def ofToml? (t : Toml) : Option Config := do
  ofGiven (← (← t.fields? names).mapM fun (name, v) => (v.word? 64).map (name, ·))

end Config

/-- The settings of the command line. -/
structure Settings where
  storePath : String := "axolotl-store.bin"
  logFilter : String := "axolotl_tool=info,axolotl_crypto=info"
  /-- The device published in bundles. -/
  deviceId : UInt32 := 1
  session : Config := {}
deriving DecidableEq, Inhabited

namespace Settings

def ofToml? (t : Toml) : Option Settings := do
  let fs ← t.fields? ["store_path", "log_filter", "device_id", "session"]
  let start : Settings := {}
  let storePath ← (fs.lookup "store_path").mapM Toml.text?
  let logFilter ← (fs.lookup "log_filter").mapM Toml.text?
  let deviceId ← (fs.lookup "device_id").mapM (·.word? 32)
  let session ← (fs.lookup "session").mapM Config.ofToml?
  return {
    storePath := storePath.getD start.storePath
    logFilter := logFilter.getD start.logFilter
    deviceId := (deviceId.map UInt32.ofNat).getD start.deviceId
    session := session.getD start.session }

/-- Reads the settings from a TOML text. -/
def ofText? (s : String) : Option Settings := do ofToml? (← Toml.parse? s)

end Settings

end DoubleRatchet
