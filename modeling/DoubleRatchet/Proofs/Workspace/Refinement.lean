import DoubleRatchet.Proofs.Engine.Alike
import DoubleRatchet.Proofs.Engine.PreKeys
import DoubleRatchet.Proofs.Workspace.Saving

/-!
# Commands do what the library does in memory

A command opens the store file, works on the stores and saves them. The same
calls on stores that are kept in memory, and replaced only when all of a command
has succeeded, give the same results; and the file always opens to exactly what
is kept. A command that fails touches no file. Main statement: `commands_refine`.
-/
namespace DoubleRatchet

/-- A command on a store file. -/
inductive StoreCommand
  | bundle (deviceId : UInt32) (replenish : Bool)
  | establish (c : Config) (peer : Address) (bundleFile : String)
  | encrypt (peer : Address) (plain : Bytes)
  | decrypt (c : Config) (now : UInt64) (peer : Address) (framed : Bytes)

/-- What a command that succeeds gives. -/
inductive Reply
  | published (b : PublishedBundle)
  | established
  | framed (bs : Bytes)
  | plain (bs : Bytes)
deriving DecidableEq

/-- The bundle in a file. -/
def bundleIn (files : Files) (file : String) : Except CommandFault PublishedBundle :=
  match (files.read? file).bind ofUtf8? with
  | none => .error (.unreadableBundle file)
  | some text =>
    match PublishedBundle.ofText? text with
    | some b => .ok b
    | none => .error .malformedBundle

/-- The message of a frame after which nothing follows. -/
def messageIn (framed : Bytes) : Except CommandFault Message :=
  match Envelope.next framed with
  | (.error fault, _) => .error (.wire fault)
  | (.ok none, _) => .error .truncatedEnvelope
  | (.ok (some m), rest) => if rest ≠ [] then .error (.trailingBytes rest.length) else .ok m

/-- Stores have to fit a snapshot before anything that depends on them is handed out. -/
def checkFits : Action CommandFault Unit := do
  let s ← Action.stores
  if UInt32.size ≤ (Stores.codec.write s).length + 16 then throw (.snapshot .tooLarge)

/-- The calls of the library that a command is made of. -/
def StoreCommand.calls [Suite] (files : Files) : StoreCommand → Action CommandFault Reply
  | bundle deviceId replenish => do
    let s ← Action.stores
    let missing := if replenish then PreKeys.missing s else 0
    if missing ≠ 0 then
      let _ ← (PreKeys.generate (Command.nextPreKeyId s) missing).adapt .session
      checkFits
    return .published
      (← Action.ofExcept ((PreKeys.currentBundle (← Action.stores) deviceId).mapError .session))
  | establish c peer bundleFile => do
    let published ← Action.ofExcept (bundleIn files bundleFile)
    (Engine.establish c peer published).adapt .session
    checkFits
    return .established
  | encrypt peer plain => do
    let m ← (Engine.encrypt peer plain).adapt .session
    let framed ← Action.ofExcept ((Envelope.encode m).mapError .wire)
    checkFits
    return .framed framed
  | decrypt c now peer framed => do
    let m ← Action.ofExcept (messageIn framed)
    let plain ← (Engine.decrypt c now peer m).adapt .session
    checkFits
    return .plain plain

/-- What is kept in memory: the stores after calls that have succeeded, else those before them. -/
def kept (s : Stores) : Except CommandFault Reply × Device → Except CommandFault Reply × Stores
  | (.ok reply, d) => (.ok reply, d.stores)
  | (.error fault, _) => (.error fault, s)

open Command

section Refines

variable {file password : String} {w : Workspace} {s : Stores}

/-- A command has done on a file what was done in memory, or has failed and touched no file. -/
structure Refines (file password : String) (w : Workspace)
    (done : Except CommandFault Reply × Workspace)
    (memory : Except CommandFault Reply × Stores) : Prop where
  result : done.1 = memory.1
  holds : Holds file password done.2 memory.2
  failed : ∀ fault, done.1 = .error fault → done.2.files = w.files

theorem Command.Holds.of_read (h : Holds file password w s) {w' : Workspace}
    (hsame : w'.files.read? file = w.files.read? file) : Holds file password w' s := by
  obtain ⟨bs, hread, hopens⟩ := h.opens
  exact ⟨⟨bs, hsame.trans hread, hopens⟩, h.signed⟩

namespace Refines

/-- A fault that is the same in memory comes before any file is touched. -/
theorem of_error (h : Holds file password w s) {w' : Workspace} (hfiles : w'.files = w.files)
    {fault : CommandFault} {d : Device} :
    Refines file password w (.error fault, w') (kept s (.error fault, d)) :=
  ⟨rfl, h.of_read (by rw [hfiles]), fun _ _ => hfiles⟩

theorem of_ok {w' : Workspace} {d : Device} (h : Holds file password w' d.stores) (reply : Reply) :
    Refines file password w (.ok reply, w') (kept s (.ok reply, d)) :=
  ⟨rfl, h, fun fault hfault => by cases hfault⟩

end Refines

/-- Stores that do not fit are not saved, and are not kept in memory. Those that fit
are both, if their signed pre-keys are as before. -/
theorem Refines.of_save (hpath : Files.Replaceable file) (h : Holds file password w s) {d : Device}
    (hkept : d.stores.signedPreKeys = s.signedPreKeys) {w' : Workspace}
    (hfiles : w'.files = w.files) {hand : Command Reply} {hand' : Action CommandFault Reply}
    {reply : Reply} (hhand : ∀ w, outcome hand w = (.ok reply, w))
    (hhand' : outcome hand' d = (.ok reply, d)) :
    Refines file password w (outcome (save file password d.stores >>= fun _ => hand) w')
      (kept s (outcome (checkFits >>= fun _ => hand') d)) := by
  have hcheck : outcome checkFits d =
      if UInt32.size ≤ (Stores.codec.write d.stores).length + 16 then
        (.error (.snapshot .tooLarge), d) else (.ok (), d) := by
    rw [checkFits, outcome_bind, Action.outcome_stores]
    exact outcome_ite _ _ _ _
  -- The seal and the check in memory refuse the same stores, and neither depends on salt or nonce.
  by_cases hfits : d.stores.Fits
  · obtain ⟨left, hsave, hopens⟩ := save_ok hpath password hfits w'
    have hsigned : d.stores.latestSignedPreKey?.isSome = true := by
      rw [Stores.latestSignedPreKey?_congr hkept]
      exact h.signed
    rw [if_neg (Nat.not_le.mpr hfits)] at hcheck
    simp only [outcome_bind, hsave, hcheck, hhand, hhand']
    exact .of_ok ⟨hopens, hsigned⟩ reply
  · obtain ⟨left, hsave, hleft⟩ := save_error file password hfits w'
    rw [if_pos (Nat.not_lt.mp hfits)] at hcheck
    simp only [outcome_bind, hsave, hcheck]
    exact .of_error h (hleft.trans hfiles)

/-- Calls on the stores, and a check of what comes of them, before it is saved. -/
theorem Refines.act {α β ε : Type} (hpath : Files.Replaceable file) (h : Holds file password w s)
    {x : Action SessionError α} (hsigned : Keeps (fun d => d.stores.signedPreKeys) x)
    (fault : ε → CommandFault) (check : α → Except ε β) (reply : β → Reply) :
    Refines file password w
      (outcome (do
        let (a, stores) ← onStores s x
        let b ← ofExcept fault (check a)
        save file password stores
        return reply b) w)
      (kept s (outcome (do
        let a ← x.adapt .session
        let b ← Action.ofExcept ((check a).mapError fault)
        checkFits
        return reply b) ⟨s, w.entropy⟩)) := by
  have hkept := hsigned ⟨s, w.entropy⟩
  rw [outcome_bind, outcome_onStores, outcome_bind, Action.outcome_adapt]
  rcases hx : outcome x ⟨s, w.entropy⟩ with ⟨refusal | a, d⟩ <;> rw [hx] at hkept
  · exact .of_error h (by rfl)
  simp only [mapError_of_ok]
  rw [outcome_bind, outcome_ofExcept, outcome_bind, Action.outcome_ofExcept]
  cases check a with
  | error refusal => exact .of_error h (by rfl)
  | ok b => exact .of_save hpath h hkept (by rfl) (fun _ => rfl) rfl

end Refines

namespace StoreCommand

variable [Suite] {file password : String} {w : Workspace} {s : Stores}

/-- The command on a store file. -/
def perform (file password : String) : StoreCommand → Command Reply
  | bundle deviceId replenish => do
    return .published (← Command.bundle file password deviceId replenish)
  | establish c peer bundleFile => do
    Command.establish c file password peer bundleFile
    return .established
  | encrypt peer plain => do return .framed (← Command.encrypt file password peer plain)
  | decrypt c now peer framed => do
    return .plain (← Command.decrypt c now file password peer framed)

/-- A command does with the store file what its calls do in memory. -/
def Sound (file password : String) (w : Workspace) (s : Stores) (x : StoreCommand) : Prop :=
  Refines file password w (outcome (x.perform file password) w)
    (kept s (outcome (x.calls w.files) ⟨s, w.entropy⟩))

theorem refines_bundle (hpath : Files.Replaceable file) (h : Holds file password w s)
    (deviceId : UInt32) (replenish : Bool) :
    Sound file password w s (bundle deviceId replenish) := by
  rw [Sound, perform, Command.bundle, calls]
  simp only [bind_assoc]
  rw [outcome_bind, outcome_load h, outcome_bind, Action.outcome_stores]
  dsimp only
  generalize (if replenish then PreKeys.missing s else 0) = missing
  by_cases hmissing : missing = 0
  · obtain ⟨p, hp⟩ := PreKeys.exists_currentBundle h.signed deviceId
    simp only [hmissing, ne_eq, not_true, if_false, if_true, outcome_bind, outcome_ofExcept,
      Action.outcome_stores, Action.outcome_ofExcept, hp, mapError_of_ok, outcome_pure]
    exact .of_ok h _
  · simp only [hmissing, ne_eq, not_false_eq_true, if_false, if_true, bind_assoc]
    rw [outcome_bind, outcome_onStores, outcome_bind, Action.outcome_adapt]
    rcases hx : outcome (PreKeys.generate (nextPreKeyId s) missing) ⟨s, w.entropy⟩ with
      ⟨fault | keys, d⟩
    · exact .of_error h (by rfl)
    · have hkept : d.stores.signedPreKeys = s.signedPreKeys := by rw [PreKeys.stores_generate hx]
      -- The bundle is put together after the save, so it must not fail.
      have hsigned : d.stores.latestSignedPreKey?.isSome = true := by
        rw [Stores.latestSignedPreKey?_congr hkept]
        exact h.signed
      obtain ⟨p, hp⟩ := PreKeys.exists_currentBundle hsigned deviceId
      have hlast : outcome (do
          let stores ← Action.stores
          let p ← Action.ofExcept ((PreKeys.currentBundle stores deviceId).mapError .session)
          return .published p : Action CommandFault Reply) d = (.ok (.published p), d) := by
        simp only [outcome_bind, Action.outcome_stores, Action.outcome_ofExcept, hp,
          mapError_of_ok, outcome_pure]
      refine .of_save hpath h hkept (by rfl) (fun _ => ?_) hlast
      simp only [outcome_bind, outcome_ofExcept, hp, mapError_of_ok, outcome_pure]

theorem refines_encrypt (hpath : Files.Replaceable file) (h : Holds file password w s)
    (peer : Address) (plain : Bytes) : Sound file password w s (encrypt peer plain) := by
  have hkeeps : Keeps (fun d => d.stores.signedPreKeys) (Engine.encrypt peer plain) :=
    fun d => Operation.signedPreKeys_perform {} d (.encrypt peer plain) rfl
  have hact := Refines.act hpath h hkeeps .wire Envelope.encode .framed
  rw [Sound, perform, Command.encrypt]
  simp only [bind_assoc, pure_bind]
  rw [outcome_bind, outcome_load h]
  exact hact

omit [Suite] in
theorem outcome_readBundle (bundleFile : String) (w : Workspace) :
    outcome (readBundle bundleFile) w = (bundleIn w.files bundleFile, w) := by
  rw [readBundle, outcome_bind, outcome_get, bundleIn]
  dsimp only
  cases (w.files.read? bundleFile).bind ofUtf8? with
  | none => rfl
  | some text =>
    dsimp only
    cases PublishedBundle.ofText? text <;> rfl

theorem refines_establish (hpath : Files.Replaceable file) (h : Holds file password w s)
    (c : Config) (peer : Address) (bundleFile : String) :
    Sound file password w s (establish c peer bundleFile) := by
  rw [Sound, perform, Command.establish, calls]
  simp only [bind_assoc]
  rw [outcome_bind, outcome_load h]
  simp only [outcome_bind (readBundle bundleFile), outcome_readBundle,
    outcome_bind (Action.ofExcept _), Action.outcome_ofExcept]
  cases bundleIn w.files bundleFile with
  | error fault => exact .of_error h (by rfl)
  | ok published =>
    have hkeeps : Keeps (fun d => d.stores.signedPreKeys) (Engine.establish c peer published) :=
      .bind (fun _ => rfl) fun b d => Operation.signedPreKeys_perform c d (.process peer b) rfl
    exact Refines.act hpath h hkeeps (id : CommandFault → CommandFault) .ok fun _ => .established

/-- A frame is read before anything is done with its message. -/
theorem outcome_decrypt (h : Holds file password w s) (c : Config) (now : UInt64) (peer : Address)
    (framed : Bytes) :
    outcome (Command.decrypt c now file password peer framed) w = match messageIn framed with
      | .error fault => (.error fault, w)
      | .ok m => outcome (do
        let (plain, stores) ← onStores s (Engine.decrypt c now peer m)
        save file password stores
        return plain) w := by
  rw [Command.decrypt, outcome_bind, outcome_load h, messageIn]
  rcases Envelope.next framed with ⟨fault | _ | m, rest⟩
  · rfl
  · rfl
  · by_cases hrest : rest = []
    · simp only [hrest, ne_eq, not_true, if_false]
      rfl
    · simp only [ne_eq, hrest, not_false_eq_true, if_true]
      rfl

theorem refines_decrypt (hpath : Files.Replaceable file) (h : Holds file password w s) (c : Config)
    (now : UInt64) (peer : Address) (framed : Bytes) :
    Sound file password w s (decrypt c now peer framed) := by
  rw [Sound, perform, calls, outcome_bind, outcome_decrypt h, outcome_bind, Action.outcome_ofExcept]
  cases messageIn framed with
  | error fault => exact .of_error h (by rfl)
  | ok m =>
    have hkeeps : Keeps (fun d => d.stores.signedPreKeys) (Engine.decrypt c now peer m) :=
      fun d => Operation.signedPreKeys_perform c d (.decrypt now peer m) rfl
    dsimp only
    rw [← outcome_bind]
    simp only [bind_assoc, pure_bind]
    exact Refines.act hpath h hkeeps (id : CommandFault → CommandFault) .ok .plain

theorem sound (hpath : Files.Replaceable file) (h : Holds file password w s) (x : StoreCommand) :
    Sound file password w s x := by
  cases x with
  | bundle deviceId replenish => exact refines_bundle hpath h deviceId replenish
  | establish c peer bundleFile => exact refines_establish hpath h c peer bundleFile
  | encrypt peer plain => exact refines_encrypt hpath h peer plain
  | decrypt c now peer framed => exact refines_decrypt hpath h c now peer framed

end StoreCommand

variable [Suite]

/-- A device that makes an identity and a registration identifier of its own. -/
def founder (e : Entropy) : Device :=
  let identity := Draw.keyPair e
  let registrationId := Draw.registrationId identity.2
  .new identity.1 registrationId.1 registrationId.2

/-- Its stores once it has published a bundle. -/
def founded (deviceId : UInt32) (preKeys : Nat) (now : UInt64) (e : Entropy) : Stores :=
  (outcome (PreKeys.generateBundle deviceId 1 preKeys now) (founder e)).2.stores

section Init

variable {file password : String} {deviceId : UInt32} {preKeys : Nat} {force : Bool} {now : UInt64}
  {w w' : Workspace}

theorem outcome_init (file password : String) (deviceId : UInt32) (preKeys : Nat) (force : Bool)
    (now : UInt64) (w : Workspace) :
    outcome (Command.init file password deviceId preKeys force now) w =
      if w.files.contains file && !force then (.error (.alreadyExists file), w)
      else match outcome (PreKeys.generateBundle deviceId 1 preKeys now) (founder w.entropy) with
        | (.ok _, d) => outcome (save file password d.stores) { w with entropy := d.entropy }
        | (.error fault, d) => (.error (.session fault), { w with entropy := d.entropy }) := by
  rw [Command.init, outcome_bind, outcome_get]
  dsimp only
  by_cases hexists : (w.files.contains file && !force) = true
  · rw [if_pos hexists, if_pos hexists]
    rfl
  · rw [if_neg hexists, if_neg hexists]
    simp only [outcome_bind, Command.outcome_draw, outcome_onStores, founder, Device.new]
    generalize Draw.keyPair w.entropy = identity
    generalize Draw.registrationId identity.2 = registrationId
    rcases outcome (PreKeys.generateBundle deviceId 1 preKeys now)
      ⟨Stores.create identity.1 registrationId.1, registrationId.2⟩ with ⟨fault | p, d⟩ <;> rfl

theorem init_ok : outcome (Command.init file password deviceId preKeys force now) w = (.ok (), w') ↔
    (w.files.contains file && !force) = false ∧
      ∃ p d, outcome (PreKeys.generateBundle deviceId 1 preKeys now)
        (founder w.entropy) = (.ok p, d) ∧
        outcome (save file password d.stores) { w with entropy := d.entropy } = (.ok (), w') := by
  rw [outcome_init]
  rcases outcome (PreKeys.generateBundle deviceId 1 preKeys now) (founder w.entropy) with
    ⟨fault | p, d⟩ <;>
    cases w.files.contains file && !force <;> simp

/-- A store file that was made holds the first stores. -/
theorem holds_init
    (h : outcome (Command.init file password deviceId preKeys force now) w = (.ok (), w')) :
    Files.Replaceable file ∧ Holds file password w' (founded deviceId preKeys now w.entropy) := by
  obtain ⟨-, p, d, hmade, hsave⟩ := init_ok.mp h
  have hfounded : founded deviceId preKeys now w.entropy = d.stores := by rw [founded, hmade]
  rw [hfounded]
  exact ⟨replaceable_of_save hsave, opens_of_save hsave,
    PreKeys.latestSigned_of_generateBundle hmade⟩

end Init

/-- A command, and the workspace in which it is given. -/
structure Step where
  found : Workspace
  command : StoreCommand

namespace Step

/-- What is done with the store file. -/
def done (file password : String) (x : Step) : Except CommandFault Reply × Workspace :=
  outcome (x.command.perform file password) x.found

/-- What is done with stores in memory. -/
def inMemory (x : Step) (s : Stores) : Except CommandFault Reply × Stores :=
  kept s (outcome (x.command.calls x.found.files) ⟨s, x.found.entropy⟩)

/-- The stores that are kept in memory over a number of commands. -/
def memory (s : Stores) (steps : List Step) : Stores := steps.foldl (fun s x => (x.inMemory s).2) s

@[simp] theorem memory_nil (s : Stores) : memory s [] = s := rfl

@[simp] theorem memory_cons (s : Stores) (x : Step) (later : List Step) :
    memory s (x :: later) = memory (x.inMemory s).2 later := rfl

/-- Each command finds the store file as the one before left it. Other files may
have changed meanwhile, and random bytes are new. -/
def Consecutive (file password : String) : Workspace → List Step → Prop
  | _, [] => True
  | w, x :: later =>
    x.found.files.read? file = w.files.read? file ∧
      Consecutive file password (x.done file password).2 later

/-- A command finds the stores that are kept in memory, and does with the file what is
done with them. -/
theorem refines_memory {file password : String} (hpath : Files.Replaceable file) {w : Workspace}
    {s : Stores} (h : Holds file password w s) {before : List Step} {x : Step} {after : List Step}
    (hsteps : Consecutive file password w (before ++ x :: after)) :
    Holds file password x.found (memory s before) ∧
      Refines file password x.found (x.done file password) (x.inMemory (memory s before)) := by
  induction before generalizing w s with
  | nil =>
    have hfound := h.of_read hsteps.1
    exact ⟨hfound, StoreCommand.sound hpath hfound x.command⟩
  | cons first before ih =>
    -- Whether the first command succeeds or not, it leaves a file that opens to what is kept.
    have hdone := StoreCommand.sound hpath (h.of_read hsteps.1) first.command
    exact ih hdone.holds hsteps.2

end Step

/-- Commands on a store file, and the calls that they are made of on stores kept
in memory: the file was made with the first stores, and before each command it
is loaded as exactly the stores that are kept. The command gives what the calls
give, after it the file opens to exactly the stores that are kept then, and if it
fails no file has been touched. -/
theorem commands_refine {file password : String} {deviceId : UInt32} {preKeys : Nat} {force : Bool}
    {now : UInt64} {w w' : Workspace}
    (made : outcome (Command.init file password deviceId preKeys force now) w = (.ok (), w'))
    {before : List Step} {x : Step} {after : List Step}
    (consecutive : Step.Consecutive file password w' (before ++ x :: after)) :
    let s := Step.memory (founded deviceId preKeys now w.entropy) before
    let done := x.done file password
    outcome (Command.load file password) x.found = (.ok s, x.found) ∧
      done.1 = (x.inMemory s).1 ∧
      (∃ bs, done.2.files.read? file = some bs ∧ Snapshot.Opens bs password (x.inMemory s).2) ∧
      ∀ fault, done.1 = .error fault → done.2.files = x.found.files := by
  obtain ⟨hpath, hholds⟩ := holds_init made
  obtain ⟨hfound, hrefines⟩ := Step.refines_memory hpath hholds consecutive
  exact ⟨outcome_load hfound, hrefines.result, hrefines.holds.opens, hrefines.failed⟩

namespace Small

/-- The first stores of a store file with two one-time pre-keys. -/
def first : Stores := @founded suite 1 2 0 (entropy 5)

/-- What is kept in memory once the pre-keys are replenished. -/
def replenished : Except CommandFault Reply × Stores :=
  kept first (outcome (@StoreCommand.calls suite {} (.bundle 1 true)) ⟨first, entropy 7⟩)

/-- What is kept after a message to a stranger. -/
def ignored : Except CommandFault Reply × Stores :=
  kept replenished.2
    (outcome (@StoreCommand.calls suite {} (.encrypt bob [104])) ⟨replenished.2, entropy 9⟩)

end Small

omit [Suite] in
/-- Pre-keys are replenished, and then there is no session to encrypt in. -/
theorem commands_refine_replenished :
    let := Small.suite
    ∃ w, outcome (Command.init "a" "" 1 2 false 0) ⟨{}, Small.entropy 5⟩ = (.ok (), w) ∧
      let bundle : Step := ⟨{ w with entropy := Small.entropy 7 }, .bundle 1 true⟩
      let encrypt : Step :=
        ⟨{ (bundle.done "a" "").2 with entropy := Small.entropy 9 }, .encrypt Small.bob [104]⟩
      (encrypt.done "a" "").1 = .error (.session (.session (.noSession Small.bob))) ∧
        (encrypt.done "a" "").2.files = (bundle.done "a" "").2.files ∧
        ∃ bs s, (bundle.done "a" "").2.files.read? "a" = some bs ∧ Snapshot.Opens bs "" s ∧
        s.preKeys.size = 100 := by
  intro
  have hfits : Small.first.Fits := by
    unfold Stores.Fits
    decide +kernel
  have hmade : (outcome (PreKeys.generateBundle 1 1 2 0) (founder (Small.entropy 5))).1.isOk =
      true := by decide +kernel
  have hpath : Files.Replaceable "a" := by
    unfold Files.Replaceable
    decide +kernel
  have hignored : Small.ignored.1 = .error (.session (.session (.noSession Small.bob))) ∧
      Small.ignored.2.preKeys.size = 100 := by decide +kernel
  rcases hrun : outcome (PreKeys.generateBundle 1 1 2 0) (founder (Small.entropy 5)) with
    ⟨fault | p, d⟩
  · rw [hrun] at hmade
    cases hmade
  have hfirst : Small.first = d.stores := by rw [Small.first, founded, hrun]
  rw [hfirst] at hfits
  obtain ⟨w, hsave, -⟩ := save_ok hpath "" hfits ⟨{}, d.entropy⟩
  have hinit : outcome (Command.init "a" "" 1 2 false 0) ⟨{}, Small.entropy 5⟩ = (.ok (), w) :=
    init_ok.mpr ⟨by decide +kernel, p, d, hrun, hsave⟩
  refine ⟨w, hinit, ?_⟩
  intro bundle
  generalize hleft : (bundle.done "a" "").2 = left
  intro encrypt
  have hsteps : Step.Consecutive "a" "" w ([bundle] ++ encrypt :: []) := by
    refine ⟨rfl, ?_, trivial⟩
    rw [hleft]
  obtain ⟨-, hresult, ⟨bs, hread, hopens⟩, hsame⟩ := commands_refine hinit hsteps
  have hbundle : bundle.inMemory (founded 1 2 0 (Small.entropy 5)) = Small.replenished := by
    have hcalls :
        StoreCommand.calls w.files (.bundle 1 true) = StoreCommand.calls {} (.bundle 1 true) := rfl
    simp only [Step.inMemory, bundle, hcalls, Small.replenished, Small.first]
  have hencrypt : encrypt.inMemory (Step.memory (founded 1 2 0 (Small.entropy 5)) [bundle]) =
      Small.ignored := by
    have hcalls : ∀ files, StoreCommand.calls files (.encrypt Small.bob [104]) =
      StoreCommand.calls {} (.encrypt Small.bob [104]) := fun _ => rfl
    rw [Step.memory_cons, Step.memory_nil, hbundle, Step.inMemory, hcalls, Small.ignored]
  rw [hencrypt] at hresult hopens
  have hfailed : (encrypt.done "a" "").1 = .error (.session (.session (.noSession Small.bob))) :=
    hresult.trans hignored.1
  rw [hsame _ hfailed] at hread
  exact ⟨hfailed, hsame _ hfailed, bs, _, hread, hopens, hignored.2⟩

end DoubleRatchet
