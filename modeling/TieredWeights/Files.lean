import TieredWeights.Content
import TieredWeights.Route
import TieredWeights.Table

/-!
# Files

The part of a file system that spilled buffers and configurations live in: folders and files with
their bytes, under their paths. A route is followed step by step, and every folder that it passes
has to be there. A folder is made with the folders that its route passes. A file is created only
where nothing stands, so no file is ever cut short by another. For reasons of its own, such as a
full disk or a folder that was taken away, the system may refuse what is done to a file.
-/
namespace TieredWeights

/-- What is done to a file. -/
inductive Deed where
  | create
  | write
  | remove
  deriving DecidableEq, Repr

/-- What the system says to a deed that it refuses, and how many bytes it had written by then. -/
structure Refusal where
  reason : String
  written : Nat := 0
  deriving DecidableEq, Repr

structure Files where
  folders : List Path
  contents : Table Path Content
  refuses : Deed → Path → Option Refusal := fun _ _ => none

namespace Files

def empty : Files := { folders := [], contents := .empty }

instance : Inhabited Files := ⟨empty⟩

/-- The largest size that a file can be given. -/
def sizeLimit : Nat := memoryLimit

def isFile (f : Files) (p : Path) : Bool := f.contents.contains p

def isFolder (f : Files) (p : Path) : Bool := p.isGiven || f.folders.contains p

/-- The files with one of given bytes at a path. -/
def put (f : Files) (p : Path) (bytes : ByteArray) : Files :=
  { f with contents := f.contents.insert p (.written bytes) }

/-- Where steps lead from a path, which has to be a folder if there are any. -/
def follow (f : Files) (p : Path) : List String → Except IoFault Path
  | [] => .ok p
  | name :: rest =>
    if f.isFile p then .error .notADirectory
    else if !f.isFolder p then .error .notFound
    else if Route.nameLimit < name.utf8ByteSize then .error .nameTooLong
    else f.follow (p.step name) rest

/-- Where the route leads that a text writes; something need not stand there. -/
def locate (f : Files) (written : String) : Except IoFault Path := do
  let r ← Route.ofText written
  f.follow r.start r.steps

/-- Make the folder at the end of a route, those that it passes being there. -/
def makeLast (f : Files) (r : Route) : Except IoFault Path × Files :=
  match f.follow r.start r.trimmed.steps with
  | .error e => (.error e, f)
  | .ok p =>
    if f.isFile p then (.error .alreadyExists, f)
    else if f.isFolder p then (.ok p, f)
    else (.ok p, { f with folders := f.folders ++ [p] })

/-- Make the folder at the end of a route and, if some are missing, those that it passes, of which
the last comes first. -/
def makeAlong (f : Files) (r : Route) : List Route → Except IoFault Path × Files
  | [] => f.makeLast r
  | next :: rest =>
    match f.makeLast r with
    | (.error .notFound, f) =>
      match f.makeAlong next rest with
      | (.error e, f) => (.error e, f)
      | (.ok _, f) => f.makeLast r
    | result => result

/-- Make a folder, and the folders on its way that are missing. An empty text stands for the working
folder. Folders made before a failure stay. -/
def makeFolder (f : Files) (written : String) : Except IoFault Path × Files :=
  if written = "" then (.ok [], f)
  else
    match Route.ofText written with
    | .error e => (.error e, f)
    | .ok r => f.makeAlong r r.passed

/-- A new file of `n` zero bytes. If the size is refused the file is left behind empty. -/
def create (f : Files) (p : Path) (n : Nat) : Except IoFault Unit × Files :=
  if f.isFile p then (.error .alreadyExists, f)
  else
    match f.refuses .create p with
    | some refusal => (.error (.other refusal.reason), f)
    | none =>
      if sizeLimit < n then
        (.error .sizeOutOfRange, { f with contents := f.contents.insert p (.zeros 0) })
      else (.ok (), { f with contents := f.contents.insert p (.zeros n) })

/-- A new file of `n` zero bytes in a folder, if the text of its route is not too long. -/
def createIn (f : Files) (folder : Folder) (name : String) (n : Nat) :
    Except IoFault Path × Files :=
  if Route.textLimit < folder.routeSize name then (.error .nameTooLong, f)
  else
    let path := folder.path ++ [name]
    let (result, f) := f.create path n
    (result.map fun _ => path, f)

/-- Write bytes over the beginning of a file; what lies beyond them stays. A refused write may have
written the first of them. -/
def overwrite (f : Files) (p : Path) (bytes : ByteArray) : Except IoFault Unit × Files :=
  match f.contents.find? p with
  | none => (.error .notFound, f)
  | some old =>
    match f.refuses .write p with
    | some refusal =>
      let part := bytes.extract 0 refusal.written
      (.error (.other refusal.reason),
        { f with contents := f.contents.insert p (old.overwrite part) })
    | none => (.ok (), { f with contents := f.contents.insert p (old.overwrite bytes) })

/-- The bytes of a file. -/
def read (f : Files) (p : Path) : Except IoFault ByteArray :=
  match f.contents.find? p with
  | some content => .ok content.bytes
  | none => .error (if f.isFolder p then .isADirectory else .notFound)

def remove (f : Files) (p : Path) : Except IoFault Unit × Files :=
  if f.isFile p then
    match f.refuses .remove p with
    | some refusal => (.error (.other refusal.reason), f)
    | none => (.ok (), { f with contents := f.contents.erase p })
  else (.error .notFound, f)

/-- Whether a path leads to something directly in a folder. -/
def isIn (folder p : Path) : Bool := p.dropLast = folder && p ≠ []

/-- The names and contents of the files of a folder. -/
def list (f : Files) (folder : Path) : List (String × Content) :=
  f.contents.toList.filterMap fun b =>
    if isIn folder b.1 then b.1.getLast?.map (·, b.2) else none

theorem find?_create {f g : Files} {p : Path} {n : Nat} (h : f.create p n = (.ok (), g)) :
    g.contents.find? p = some (.zeros n) := by
  unfold create at h
  split at h
  · cases h
  split at h
  · cases h
  split at h
  · cases h
  · cases h
    simp

theorem find?_create_ne {f g : Files} {p q : Path} {n : Nat} {r : Except IoFault Unit}
    (h : f.create p n = (r, g)) (hq : q ≠ p) : g.contents.find? q = f.contents.find? q := by
  unfold create at h
  split at h
  · cases h
    rfl
  split at h
  · cases h
    rfl
  split at h <;> cases h <;> simp [Table.find?_insert_ne, hq]

end Files

end TieredWeights
