import TieredWeights.Fault
import TieredWeights.Text.Pieces

/-!
# Paths and routes

A path says where a file or folder stands, and a place has one path only. A route is what a user
writes: steps between slashes, some of which stay or go back. The folders that a route passes must
be there, so where it leads depends on the files; `Path.step` says where a single step leads.
-/
namespace TieredWeights

/-- The names from the working folder down to a file or folder. Outside of the working folder the
names follow a step back for each folder above it, or an empty name, which stands for the root. -/
abbrev Path := List String

namespace Path

def display (p : Path) : String := "/".intercalate p

/-- Whether a path leads to a folder that is always there: the working folder, one above it, or the
root. -/
def isGiven (p : Path) : Bool := p = [""] || p.all (· = "..")

/-- The folder above another; the root is above itself. -/
def above (p : Path) : Path :=
  match p.getLast? with
  | none => [".."]
  | some name => if name = "" then p else if name = ".." then p ++ [".."] else p.dropLast

/-- Where a step leads from a folder. -/
def step (p : Path) (name : String) : Path :=
  if name = "" ∨ name = "." then p
  else if name = ".." then p.above
  else p ++ [name]

end Path

/-- What comes before the name in the routes to files of a folder that a text names. -/
def Folder.lead (written : String) : String :=
  if written = "" ∨ written.toList.getLast? = some '/' then written else written ++ "/"

/-- A folder and the text that it was named by, with which the texts of routes into it begin. How
many bytes come before the name in these is kept with it, for only their number matters to routes. -/
structure Folder where
  written : String
  path : Path
  leadSize : Nat
  leadSize_eq : leadSize = (Folder.lead written).utf8ByteSize
  deriving DecidableEq, Repr

namespace Folder

/-- The folder of a path, named by a text. -/
def named (written : String) (path : Path) : Folder := ⟨written, path, _, rfl⟩

/-- The text of the route to a file in the folder. -/
def routeTo (folder : Folder) (name : String) : String := lead folder.written ++ name

/-- How many bytes the text of the route to a file has. -/
def routeSize (folder : Folder) (name : String) : Nat := folder.leadSize + name.utf8ByteSize

theorem routeSize_eq (folder : Folder) (name : String) :
    folder.routeSize name = (folder.routeTo name).utf8ByteSize := by
  rw [routeTo, String.utf8ByteSize_append, routeSize, folder.leadSize_eq]

end Folder

structure Route where
  start : Path
  steps : List String
  deriving DecidableEq, Repr

namespace Route

/-- How many bytes the text of a route may have. -/
def textLimit : Nat := 4095

/-- How many bytes a name may have. -/
def nameLimit : Nat := 255

/-- The route that a text writes. -/
def ofText (s : String) : Except IoFault Route :=
  if '\x00' ∈ s.toList then .error .nullInName
  else if textLimit < s.utf8ByteSize then .error .nameTooLong
  else if s = "" then .error .notFound
  else
    let steps := (Text.pieces '/' s.toList).map String.ofList
    .ok ⟨if s.toList.head? = some '/' then [""] else [], steps⟩

/-- The route without slashes at its end, which say only that a folder is meant. -/
def trimmed (r : Route) : Route :=
  { r with steps := (r.steps.reverse.dropWhile fun s => s = "").reverse }

/-- The steps that lead elsewhere. -/
def names (r : Route) : List String := r.steps.filter fun s => s ≠ "" ∧ s ≠ "."

/-- The routes to the folders that a route passes, the last of them first. -/
def passed (r : Route) : List Route :=
  (List.range (r.names.length - 1)).reverse.map fun n => ⟨r.start, r.names.take (n + 1)⟩

end Route

end TieredWeights
