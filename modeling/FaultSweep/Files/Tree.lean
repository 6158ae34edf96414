import FaultSweep.Error
import FaultSweep.Files.Path
import FaultSweep.Text.Utf8

/-!
# File trees

Files and directories by their place below the root. A path text is resolved from a working
directory, and every component on the way must be a directory.
-/

namespace FaultSweep

open Utf8 (Bytes)

/-- The names from the root down. -/
abbrev Location := List String

inductive FileEntry where
  | file (bytes : Bytes)
  | directory

structure FileTree where
  entries : List (Location × FileEntry)

namespace FileTree

def empty : FileTree := ⟨[]⟩

/-- What stands at a place. The root is always a directory. -/
def get? (t : FileTree) (l : Location) : Option FileEntry :=
  if l = [] then some .directory else (t.entries.find? (·.1 = l)).map (·.2)

def erase (t : FileTree) (l : Location) : FileTree := ⟨t.entries.filter (·.1 ≠ l)⟩

def put (t : FileTree) (l : Location) (e : FileEntry) : FileTree := ⟨(l, e) :: (t.erase l).entries⟩

theorem get?_put_self (t : FileTree) {l : Location} (e : FileEntry) (h : l ≠ []) :
    (t.put l e).get? l = some e := by
  simp [get?, put, h]

theorem get?_erase_of_ne (t : FileTree) {k l : Location} (h : k ≠ l) :
    (t.erase l).get? k = t.get? k := by
  simp only [get?, erase]
  split
  · rfl
  · congr 1
    rw [List.find?_filter]
    congr 1
    funext x
    by_cases hx : x.1 = k <;> simp [hx, h]

theorem get?_put_of_ne (t : FileTree) {k l : Location} (e : FileEntry) (h : k ≠ l) :
    (t.put l e).get? k = t.get? k := by
  rw [← get?_erase_of_ne t h]
  simp [get?, put, h.symm]

theorem get?_erase_self (t : FileTree) {l : Location} (h : l ≠ []) :
    (t.erase l).get? l = none := by
  simp [get?, erase, h]

/-- The names in a directory, in order. -/
def names (t : FileTree) (l : Location) : List String :=
  let found := t.entries.filterMap fun e =>
    match e.1.getLast? with
    | some name => if e.1.dropLast = l then some name else none
    | none => none
  found.mergeSort (fun a b => !decide (b < a))

/-- The longest name a component may have, and the longest path, in bytes. -/
def nameLimit : Nat := 255
def pathLimit : Nat := 4096

/-- Follows components from a directory; each but the last must be a directory. -/
def walk (t : FileTree) : Location → List String → Except OsError Location
  | l, [] => .ok l
  | l, name :: rest =>
    match t.get? l with
    | none => .error .notFound
    | some (.file _) => .error .notDirectory
    | some .directory =>
      if name = "" ∨ name = "." then walk t l rest
      else if name = ".." then walk t l.dropLast rest
      else if name.utf8ByteSize > nameLimit then .error .nameTooLong
      else walk t (l ++ [name]) rest

/-- The place a path text leads to from a working directory; nothing need be there. -/
def locate (t : FileTree) (cwd : Location) (p : String) : Except IoError Location :=
  if p.toList.contains '\x00' then .error .nulInPath
  else if p = "" then .error (.os .notFound)
  else if p.utf8ByteSize ≥ pathLimit then .error (.os .nameTooLong)
  else
    match t.walk (if Path.isAbsolute p then [] else cwd)
      ((Path.segments p.toList).map String.ofList) with
    | .ok l => .ok l
    | .error e => .error (.os e)

def locationText (l : Location) : String := "/" ++ "/".intercalate l

/-- The absolute path without detours of what stands at a path. -/
def canonical? (t : FileTree) (cwd : Location) (p : String) : Option String :=
  match t.locate cwd p with
  | .ok l => (t.get? l).map fun _ => locationText l
  | .error _ => none

def isDirectory (t : FileTree) (cwd : Location) (p : String) : Bool :=
  match t.locate cwd p with
  | .ok l => match t.get? l with
    | some .directory => true
    | _ => false
  | .error _ => false

def read (t : FileTree) (cwd : Location) (p : String) : Except IoError Bytes :=
  match t.locate cwd p with
  | .error e => .error e
  | .ok l => match t.get? l with
    | none => .error (.os .notFound)
    | some .directory => .error (.os .isDirectory)
    | some (.file b) => .ok b

/-- Makes a file or empties it. -/
def create (t : FileTree) (cwd : Location) (p : String) : Except IoError (Location × FileTree) :=
  match t.locate cwd p with
  | .error e => .error e
  | .ok l => match t.get? l with
    | some .directory => .error (.os .isDirectory)
    | _ => .ok (l, t.put l (.file ByteArray.empty))

/-- Writes a whole file. -/
def write (t : FileTree) (cwd : Location) (p : String) (b : Bytes) : Except IoError FileTree :=
  match t.create cwd p with
  | .error e => .error e
  | .ok (l, t) => .ok (t.put l (.file b))

def remove (t : FileTree) (cwd : Location) (p : String) : Except IoError FileTree :=
  match t.locate cwd p with
  | .error e => .error e
  | .ok l => match t.get? l with
    | none => .error (.os .notFound)
    | some .directory => .error (.os .isDirectory)
    | some (.file _) => .ok (t.erase l)

/-- Moves a file over what stands at the target, which is no directory. -/
def rename (t : FileTree) (cwd : Location) (p target : String) : Except IoError FileTree :=
  match t.locate cwd p, t.locate cwd target with
  | .error e, _ => .error e
  | _, .error e => .error e
  | .ok l, .ok k => match t.get? l, t.get? k with
    | none, _ => .error (.os .notFound)
    | some .directory, _ => .error (.os .notDirectory)
    | some (.file _), some .directory => .error (.os .isDirectory)
    | some (.file b), _ => .ok ((t.erase l).put k (.file b))

def makeDirectory (t : FileTree) (cwd : Location) (p : String) : Except IoError FileTree :=
  match t.locate cwd p with
  | .error e => .error e
  | .ok l => match t.get? l with
    | some _ => .error (.os .alreadyExists)
    | none => .ok (t.put l .directory)

/-- Makes a directory and those above it that are missing, at most `rounds` of them. What was made
before a failure stays. -/
def makeDirectories (cwd : Location) : Nat → String → FileTree → Except IoError Unit × FileTree
  | 0, _, t => (.error (.os .notFound), t)
  | rounds + 1, p, t =>
    if p = "" then (.ok (), t)
    else match t.makeDirectory cwd p with
      | .ok t => (.ok (), t)
      | .error (.os .notFound) =>
        match Path.parent? p with
        | none => (.error (.other "failed to create whole tree"), t)
        | some q => match makeDirectories cwd rounds q t with
          | (.error e, t) => (.error e, t)
          | (.ok (), t) => match t.makeDirectory cwd p with
            | .ok t => (.ok (), t)
            | .error e => if t.isDirectory cwd p then (.ok (), t) else (.error e, t)
      | .error e => if t.isDirectory cwd p then (.ok (), t) else (.error e, t)

end FileTree

end FaultSweep
