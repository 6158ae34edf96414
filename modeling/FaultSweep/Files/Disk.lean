import FaultSweep.Files.Tree

/-!
# Disks

A disk is a file tree, the working directory, and what the disk refuses to do. A file is replaced as
a whole: the bytes go to a new file beside it, which is then renamed over it, and a replacement that
fails leaves the file as it was and removes the new one.
-/

namespace FaultSweep

open Utf8 (Bytes)

/-- The steps of a replacement. -/
inductive ReplaceStep where
  | makeParents
  | create
  | write
  | sync
  | rename
  deriving DecidableEq

structure Disk where
  tree : FileTree
  cwd : Location
  /-- The steps that fail whatever the tree, a full disk for instance. -/
  refusal : ReplaceStep → Option IoError
  /-- The number of names of temporary files given out so far. -/
  serial : Nat

namespace Disk

def read (d : Disk) (p : String) : Except IoError Bytes := d.tree.read d.cwd p

/-- The number of the process that writes. -/
def process : Nat := 10000

/-- The time of the first temporary file, in microseconds. Each later one has the next. -/
def firstTime : Nat := 1700000000000000

/-- A stamp that no earlier temporary file has: a process number and a time. Its length counts where
a name is close to the longest there may be. -/
def stamp (d : Disk) : String :=
  Decimal.text process ++ "." ++ Decimal.text (firstTime + d.serial)

def spend (d : Disk) : Disk := { d with serial := d.serial + 1 }

/-- Removes a file if it is there. -/
def discard (d : Disk) (p : String) : Disk :=
  match d.tree.remove d.cwd p with
  | .ok t => { d with tree := t }
  | .error _ => d

/-- Makes the missing directories above a path. -/
def makeParents (d : Disk) (p : String) : Except IoError Unit × Disk :=
  match d.refusal .makeParents with
  | some e => (.error e, d)
  | none =>
    match Path.parent? p with
    | none => (.ok (), d)
    | some q =>
      let (r, t) := d.tree.makeDirectories d.cwd (q.length + 1) q
      (r, { d with tree := t })

/-- One step on the tree, unless the disk refuses it. -/
def attempt (d : Disk) (step : ReplaceStep) (act : FileTree → Except IoError FileTree) :
    Except IoError Unit × Disk :=
  match d.refusal step with
  | some e => (.error e, d)
  | none => match act d.tree with
    | .error e => (.error e, d)
    | .ok t => (.ok (), { d with tree := t })

/-- The name of the new file beside `p`. -/
def temporary (d : Disk) (p : String) : String :=
  let name := (Path.fileName? p).getD "tmpfile"
  Path.withFileName p ("." ++ name ++ ".tmp." ++ d.stamp)

/-- Writes the new file and renames it over the old one. -/
def writeAndRename (d : Disk) (temp p : String) (b : Bytes) : Except IoError Unit × Disk :=
  match d.attempt .create fun t => (t.create d.cwd temp).map (·.2) with
  | (.error e, d) => (.error e, d)
  | (.ok (), d) => match d.attempt .write (·.write d.cwd temp b) with
    | (.error e, d) => (.error e, d)
    | (.ok (), d) => match d.attempt .sync .ok with
      | (.error e, d) => (.error e, d)
      | (.ok (), d) => d.attempt .rename (·.rename d.cwd temp p)

/-- Replaces a file as a whole. -/
def replace (d : Disk) (p : String) (b : Bytes) : Except IoError Unit × Disk :=
  match d.makeParents p with
  | (.error e, d) => (.error e, d)
  | (.ok (), d) =>
    let temp := d.temporary p
    match d.spend.writeAndRename temp p b with
    | (.error e, d) => (.error e, d.discard temp)
    | (.ok (), d) => (.ok (), d)

end Disk

end FaultSweep
