import DoubleRatchet.Proofs.Computation
import DoubleRatchet.Proofs.Store.Snapshot
import DoubleRatchet.Workspace.Commands

/-!
# Loading and saving a store file

What the parts of commands give, and what they leave of the files. A store file
that was saved opens to the stores that were saved, and a save that fails for
their size has touched no file. Main statements: `outcome_load`, `save_ok` and
`save_error`.
-/
namespace DoubleRatchet

/-- Stores whose snapshot has a length of 32 bits. -/
def Stores.Fits (s : Stores) : Prop := (Stores.codec.write s).length + 16 < UInt32.size

namespace Snapshot

theorem defaultIterations_ne_zero : defaultIterations ≠ 0 := by decide

/-- Stores that do not fit are not sealed. -/
theorem sealWith_tooLarge (salt : Octets 32) (nonce : Octets 12) {s : Stores} (password : String)
    {iterations : UInt32} (hiterations : iterations ≠ 0) (h : ¬ s.Fits) :
    sealWith salt nonce s password iterations = .error .tooLarge := by
  simp only [sealWith, deriveKey_ok password salt.toList hiterations, bind, Except.bind,
    Gcm.length_encrypt, if_pos (Nat.not_lt.mp h)]
  rfl

/-- Stores that fit are sealed as what opens to them. -/
theorem sealWith_opens (salt : Octets 32) (nonce : Octets 12) {s : Stores} (password : String)
    {iterations : UInt32} (hiterations : iterations ≠ 0) (h : s.Fits) :
    ∃ bs, sealWith salt nonce s password iterations = .ok bs ∧ Opens bs password s := by
  have hlength : (Stores.codec.write s).length < UInt64.size := by
    have hsize : UInt32.size ≤ UInt64.size := by decide
    unfold Stores.Fits at h
    omega
  have hread := (Stores.exact_codecIn .sorted).read_write (a := s) hlength []
  rw [List.append_nil, Stores.codecIn_sorted] at hread
  refine ⟨_, sealWith_eq salt nonce password s hiterations h,
    opens_snapshot salt nonce password hiterations h ?_⟩
  rw [Codec.decode?, hread, Option.map_some]

end Snapshot

namespace Files

/-- A path that can be replaced: both names of a replacement can be names of files. -/
def Replaceable (path : String) : Prop :=
  isFileName (splitPath (besidePath path)).2 = true ∧ isFileName (splitPath path).2 = true

theorem replace_ok_iff {fs : Files} {path : String} {content : Bytes} :
    (fs.replace path content).1 = .ok () ↔ Replaceable path := by
  unfold replace Replaceable
  cases hbeside : isFileName (splitPath (besidePath path)).2 <;>
    cases isFileName (splitPath path).2 <;> simp [hbeside]

end Files

namespace Command

variable {α : Type} {file password : String} {w : Workspace} {s : Stores}

@[simp] theorem outcome_draw (x : Draw α) (w : Workspace) :
    outcome (draw x) w = (.ok (x w.entropy).1, { w with entropy := (x w.entropy).2 }) := rfl

@[simp] theorem outcome_ofExcept {ε : Type} (fault : ε → CommandFault) (x : Except ε α)
    (w : Workspace) :
    outcome (ofExcept fault x) w = (x.mapError fault, w) := rfl

theorem outcome_get (w : Workspace) : outcome (get : Command Workspace) w = (.ok w, w) := rfl

theorem outcome_onStores (s : Stores) (x : Action SessionError α) (w : Workspace) :
    outcome (onStores s x) w = match outcome x ⟨s, w.entropy⟩ with
      | (.ok a, d) => (.ok (a, d.stores), { w with entropy := d.entropy })
      | (.error e, d) => (.error (.session e), { w with entropy := d.entropy }) := by
  rw [onStores, outcome_bind, outcome_get]
  dsimp only
  rcases hx : outcome x ⟨s, w.entropy⟩ with ⟨fault | a, d⟩
  · rw [show x ⟨s, w.entropy⟩ = (.error fault, d) from hx]
    rfl
  · rw [show x ⟨s, w.entropy⟩ = (.ok a, d) from hx]
    rfl

/-- A store file opens to stores, which have a signed pre-key. -/
structure Holds (file password : String) (w : Workspace) (s : Stores) : Prop where
  opens : ∃ bs, w.files.read? file = some bs ∧ Snapshot.Opens bs password s
  signed : s.latestSignedPreKey?.isSome = true

theorem outcome_load (h : Holds file password w s) :
    outcome (load file password) w = (.ok s, w) := by
  obtain ⟨bs, hread, hopens⟩ := h.opens
  rw [load, outcome_bind, outcome_get]
  dsimp only
  rw [hread]
  simp only [outcome_ofExcept, hopens.whole, mapError_of_ok]

theorem outcome_write (file : String) (content : Bytes) (w : Workspace) :
    outcome (write file content) w =
      ((w.files.replace file content).1.mapError .notWritten,
        { w with files := (w.files.replace file content).2 }) := by
  rw [write, outcome_bind, outcome_get]
  dsimp only
  generalize w.files.replace file content = replaced
  rfl

/-- Stores are sealed, and the file is replaced by what comes of it. -/
theorem outcome_save_eq (file password : String) (s : Stores) (w : Workspace) :
    ∃ salt nonce entropy, outcome (save file password s) w =
      match Snapshot.sealWith salt nonce s password Snapshot.defaultIterations with
      | .error fault => (.error (.snapshot fault), { w with entropy })
      | .ok bs => ((w.files.replace file bs).1.mapError .notWritten,
          ⟨(w.files.replace file bs).2, entropy⟩) := by
  have hmake :
      ∃ salt nonce entropy, (Snapshot.make s password Snapshot.defaultIterations).run w.entropy =
      (Snapshot.sealWith salt nonce s password Snapshot.defaultIterations, entropy) :=
    ⟨(Draw.octets 32 w.entropy).1, (Draw.octets 12 (Draw.octets 32 w.entropy).2).1,
      (Draw.octets 12 (Draw.octets 32 w.entropy).2).2, rfl⟩
  obtain ⟨salt, nonce, entropy, hmake⟩ := hmake
  refine ⟨salt, nonce, entropy, ?_⟩
  rw [save, outcome_bind, outcome_draw, hmake]
  cases Snapshot.sealWith salt nonce s password Snapshot.defaultIterations with
  | error fault => simp only [outcome_bind, outcome_ofExcept, mapError_of_error]
  | ok bs => simp only [outcome_bind, outcome_ofExcept, mapError_of_ok, outcome_write]

/-- A file that can be replaced takes stores that fit. -/
theorem save_ok (hpath : Files.Replaceable file) (password : String) (hfits : s.Fits)
    (w : Workspace) :
    ∃ w', outcome (save file password s) w = (.ok (), w') ∧
      ∃ bs, w'.files.read? file = some bs ∧ Snapshot.Opens bs password s := by
  obtain ⟨salt, nonce, entropy, hsave⟩ := outcome_save_eq file password s w
  obtain ⟨bs, hseal, hopens⟩ :=
    Snapshot.sealWith_opens salt nonce password Snapshot.defaultIterations_ne_zero hfits
  have hreplace : (w.files.replace file bs).1 = .ok () := Files.replace_ok_iff.mpr hpath
  have hread := Files.read?_replace hreplace
  rw [hseal] at hsave
  simp only [hreplace, mapError_of_ok] at hsave
  generalize (w.files.replace file bs).2 = files at hsave hread
  exact ⟨_, hsave, bs, hread, hopens⟩

/-- Stores that do not fit are not saved, and no file changes. -/
theorem save_error (file password : String) (hfits : ¬ s.Fits) (w : Workspace) :
    ∃ w', outcome (save file password s) w = (.error (.snapshot .tooLarge), w') ∧
      w'.files = w.files := by
  obtain ⟨salt, nonce, entropy, hsave⟩ := outcome_save_eq file password s w
  rw [Snapshot.sealWith_tooLarge salt nonce password
    Snapshot.defaultIterations_ne_zero hfits] at hsave
  exact ⟨_, hsave, rfl⟩

/-- Stores are only saved into a file that can be replaced. -/
theorem replaceable_of_save {w' : Workspace} (h : outcome (save file password s) w = (.ok (), w')) :
    Files.Replaceable file := by
  obtain ⟨salt, nonce, entropy, hsave⟩ := outcome_save_eq file password s w
  rw [hsave] at h
  cases hseal : Snapshot.sealWith salt nonce s password Snapshot.defaultIterations with
  | error fault =>
    rw [hseal] at h
    cases h
  | ok bs =>
    rw [hseal] at h
    exact Files.replace_ok_iff.mp (mapError_ok.mp (Prod.mk.inj h).1)

/-- What was saved is what the file opens to. -/
theorem opens_of_save {w' : Workspace} (h : outcome (save file password s) w = (.ok (), w')) :
    ∃ bs, w'.files.read? file = some bs ∧ Snapshot.Opens bs password s := by
  by_cases hfits : s.Fits
  · obtain ⟨w'', hsave, hopens⟩ := save_ok (replaceable_of_save h) password hfits w
    obtain ⟨-, rfl⟩ := Prod.mk.inj (hsave.symm.trans h)
    exact hopens
  · obtain ⟨w'', hsave, -⟩ := save_error file password hfits w
    cases hsave.symm.trans h

end Command

end DoubleRatchet
