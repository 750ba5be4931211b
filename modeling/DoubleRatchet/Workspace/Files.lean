import DoubleRatchet.Table
import DoubleRatchet.Bytes

/-!
# Files

Files by their paths. A file is replaced as a whole: the new content goes to a
file beside it, which then takes its name. Whatever stood under the name of
that other file is gone. Some names belong to no file, and the replacement
stops at the first of its two names that is of this kind.

Main statement: `read?_replace`.
-/
namespace DoubleRatchet

structure Files where
  table : Table String Bytes := .empty

/-- Why a file is not replaced. -/
inductive FileFault
  | notCreated (beside : String)
  /-- The new content is beside the file and stays there. -/
  | notMoved (beside : String)
deriving DecidableEq

def FileFault.message : FileFault → String
  | notCreated beside => "failed to create " ++ beside
  | notMoved beside => "failed to move " ++ beside ++ " into place"

namespace Files

/-- A path up to its last slash, and what follows that. -/
def splitPath (path : String) : String × String :=
  let cs := path.toList.reverse
  (String.ofList (cs.dropWhile (· ≠ '/')).reverse, String.ofList (cs.takeWhile (· ≠ '/')).reverse)

/-- The names of the folder at hand and of the one above it. -/
def isFolderName (name : String) : Bool := name = "." || name = ".."

/-- The greatest number of UTF-8 bytes in a name. -/
def nameLimit : Nat := 255

/-- Whether a file can have a name. -/
def isFileName (name : String) : Bool :=
  name ≠ "" && !isFolderName name && name.toList.all (· ≠ Char.ofNat 0) &&
    name.utf8ByteSize ≤ nameLimit

/-- A name without what follows its last point; a point in front belongs to the name. -/
def stem (name : String) : String :=
  let cs := name.toList.reverse
  match cs.dropWhile (· ≠ '.') with
  | _ :: first :: rest => String.ofList (first :: rest).reverse
  | _ => name

/-- The name under which new content is written first. What follows the last
point gives way to `tmp`, unless what is in front of it names a folder. -/
def besideName (name : String) : String :=
  let front := if stem name = name then name else stem name ++ "."
  if front = "" || isFolderName front then front else stem name ++ ".tmp"

def besidePath (path : String) : String := (splitPath path).1 ++ besideName (splitPath path).2

def read? (fs : Files) (path : String) : Option Bytes := fs.table.get? path

/-- Whether there is a file or a folder at a path. -/
def contains (fs : Files) (path : String) : Bool :=
  isFolderName (splitPath path).2 || fs.table.contains path

/-- Replaces a file as a whole, or makes it. -/
def replace (fs : Files) (path : String) (content : Bytes) : Except FileFault Unit × Files :=
  let beside := besidePath path
  if !isFileName (splitPath beside).2 then (.error (.notCreated beside), fs)
  else if !isFileName (splitPath path).2 then
    (.error (.notMoved beside), ⟨fs.table.insert beside content⟩)
  else (.ok (), ⟨(fs.table.erase beside).insert path content⟩)

/-- A file that was replaced has the new content. -/
theorem read?_replace {fs : Files} {path : String} {content : Bytes}
    (h : (fs.replace path content).1 = .ok ()) :
    (fs.replace path content).2.read? path = some content := by
  simp only [replace] at h ⊢
  split at h
  · cases h
  · rename_i hb
    rw [if_neg hb]
    split at h
    · cases h
    · rename_i hn
      simp [hn, read?, Table.get?_insert]

end Files

end DoubleRatchet
