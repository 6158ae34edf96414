import FaultSweep.Console.Reply

/-!
# The program

The command line over the plan and the ledger as they are on the disk. No program is started from
here and no service is asked: to a sweep they are missing. So plans are checked, the state of a
ledger is shown, and whole sweeps are left to those who bring a machine of their own.
-/

namespace FaultSweep.Console

/-- A machine without programs and services. -/
def bareMachine : Machine Unit where
  launch _ _ disk s := (.error (.os .notFound), disk, s)
  launchCost _ _ _ _ := 0
  fetch _ s := (.failed "there is no service", s)
  fetchCost _ _ := 0

/-- A disk on which there is only the working directory. -/
def bareDisk (cwd : String) : Disk :=
  let names := ((Path.segments cwd.toList).map String.ofList).filter (· ≠ "")
  let (_, tree) := FileTree.empty.makeDirectories [] (cwd.length + 1) cwd
  ⟨tree, names, fun _ => none, 0⟩

/-- Puts a file on a disk, with the directories above it. -/
def place (d : Disk) (path : String) (b : Utf8.Bytes) : Disk :=
  let parent := (Path.parent? path).getD ""
  let (_, tree) := d.tree.makeDirectories d.cwd (parent.length + 1) parent
  { d with tree := (tree.write d.cwd path b).toOption.getD tree }

/-- The plan a request is about, and what overrides it. -/
def Request.plan? : Request → Option (String × SweepOverrides)
  | .run plan o _ => some (plan, o)
  | .status plan o _ => some (plan, o)
  | .teardown plan _ => some (plan, .unchanged)
  | .download plan _ _ => some (plan, .unchanged)
  | .help => none
  | .version => none

/-- Copies a file to the disk of the world, if it can be read. -/
def fetchFile (d : Disk) (path : String) : IO Disk := do
  try
    return place d path (← IO.FS.readBinFile path)
  catch _ => return d

/-- The disk with all that a request looks at. -/
def fetchFiles (d : Disk) (r : Request) : IO Disk := do
  match r.plan? with
  | none => return d
  | some (path, o) =>
    let d ← fetchFile d path
    match SweepPlan.loadWith d path o with
    | .error _ => return d
    | .ok p => fetchFile d p.ledger

end FaultSweep.Console

open FaultSweep in
def main (args : List String) : IO UInt32 := do
  let disk := Console.bareDisk (← IO.currentDir).toString
  let disk ← match Console.read? args with
    | none => pure disk
    | some r => Console.fetchFiles disk r
  match (Console.run Console.bareMachine 1 args ⟨(), disk, .start, []⟩).1 with
  | none =>
    IO.eprintln "Error: the sweep does not end here; see --max-passes"
    return 1
  | some reply =>
    for line in reply.lines do IO.println line
    if let some text := reply.complaint then IO.eprintln text
    return UInt32.ofNat reply.exit
