import FaultSweep.Clock
import FaultSweep.Command
import FaultSweep.Files.Disk
import FaultSweep.Json.Value

/-!
# The world around a sweep

Programs and services may behave in any way: a machine says for each of its states what a program
that is started or a request that is sent does, and how long this takes. The world is a machine's
state with the disk, the clock, and a record of all that was tried.
-/

namespace FaultSweep

open Utf8 (Bytes)

/-- How a program ended. No code means that a signal ended it. -/
structure Exit where
  code : Option Nat
  stdout : Bytes
  stderr : Bytes

inductive Method where
  | get
  | post
  deriving DecidableEq

structure Request where
  method : Method
  url : String
  body : Option Json

/-- What comes of a request. -/
inductive Fetched where
  | failed (text : String)
  | answered (status : Nat) (body : Bytes)
  /-- The body cannot be read to its end, for the reason that is told. -/
  | broken (status : Nat) (text : String)

structure Machine (σ : Type) where
  /-- Starts the program `argv` in a directory. It may change the disk. -/
  launch : List String → Location → Disk → σ → Except IoError Exit × Disk × σ
  /-- How long it takes to start it and to wait for its end. -/
  launchCost : List String → Location → Disk → σ → Nat
  fetch : Request → σ → Fetched × σ
  fetchCost : Request → σ → Nat

inductive Effect where
  /-- An attempt to start a program, and the directory it runs in if it was started. -/
  | launch (argv : List String) (workDir : Option String) (started : Option Location)
  | request (r : Request)

structure World (σ : Type) where
  state : σ
  disk : Disk
  clock : VirtualClock
  trace : List Effect

namespace World

variable {σ : Type}

def clockOf : Clock (World σ) where
  now w := w.clock.elapsed
  sleep d w := { w with clock := w.clock.sleep d }

def note (w : World σ) (e : Effect) : World σ := { w with trace := w.trace ++ [e] }

/-- Time passes. -/
def wait (w : World σ) (cost : Nat) : World σ := { w with clock := w.clock.advance cost }

/-- The directory a program would run in. -/
def workPlace (w : World σ) (dir : Option String) : Except IoError Location :=
  match dir with
  | none => .ok w.disk.cwd
  | some p =>
    if p.toList.contains '\x00' then .error .nulInArgument
    else match w.disk.tree.locate w.disk.cwd p with
      | .error e => .error e
      | .ok l => match w.disk.tree.get? l with
        | none => .error (.os .notFound)
        | some (.file _) => .error (.os .notDirectory)
        | some .directory => .ok l

/-- Tries to start a program. -/
def spawn (m : Machine σ) (argv : List String) (dir : Option String) (w : World σ) :
    Except IoError Exit × World σ :=
  let refused (e : IoError) := (Except.error e, w.note (.launch argv dir none))
  if argv.any (·.toList.contains '\x00') then refused .nulInArgument
  else match w.workPlace dir with
    | .error e => refused e
    | .ok l =>
      let v := w.wait (m.launchCost argv l w.disk w.state)
      match m.launch argv l w.disk w.state with
      | (.error e, disk, s) =>
        (.error e, { v with disk := disk, state := s }.note (.launch argv dir none))
      | (.ok x, disk, s) =>
        (.ok x, { v with disk := disk, state := s }.note (.launch argv dir (some l)))

/-- Runs a command line that has to end well. -/
def runChecked (m : Machine σ) (argv : List String) (dir : Option String) (w : World σ) :
    Except CommandError Output × World σ :=
  if argv = [] then (.error .emptyArgv, w)
  else match w.spawn m argv dir with
    | (.error e, w) => (.error (.spawn (Shell.join argv) e), w)
    | (.ok x, w) =>
      if x.code = some 0 then (.ok ⟨x.stdout, x.stderr⟩, w)
      else
        let status := match x.code with
          | some n => Decimal.text n
          | none => "signal"
        (.error (.exitStatus (Shell.join argv) status (stderrTail x.stderr)), w)

def run (m : Machine σ) (c : CommandLine) (args : List String) (w : World σ) :
    Except CommandError Output × World σ :=
  w.runChecked m (c.withArgs args) c.workDir

/-- Sends a request. -/
def fetch (m : Machine σ) (r : Request) (w : World σ) : Fetched × World σ :=
  let (f, s) := m.fetch r w.state
  (f, { w.wait (m.fetchCost r w.state) with state := s }.note (.request r))

end World

end FaultSweep
