import FaultSweep.Rehearsal.Script
import FaultSweep.World

/-!
# Sandboxes

A sandbox is a machine with a fixed set of programs and one service, which all follow scripts. A
rule for programs fits a command line in which its word occurs, a rule for the service fits the
paths that begin with its text; of the rules that fit, the first answers. All of this takes no time.
-/

namespace FaultSweep

open Utf8 (Bytes)

/-- What a program does: it may write a file, says something, and ends. -/
structure ProgramReply where
  exit : Exit
  /-- What is written to the path that follows the first `-o` of the command line. -/
  out : Option Bytes

def ProgramReply.silent : ProgramReply := ⟨⟨some 0, ByteArray.empty, ByteArray.empty⟩, none⟩

structure Rule (α : Type) where
  pattern : String
  script : Script α

structure Sandbox where
  programs : List String
  rules : List (Rule ProgramReply)
  /-- The address of the service, if it can be reached. -/
  service : Option String
  routes : List (Rule Fetched)

namespace Sandbox

variable {α : Type}

/-- The reply of the first rule that fits. -/
def consult (fits : String → Bool) : List (Rule α) → Option α × List (Rule α)
  | [] => (none, [])
  | r :: rs =>
    if fits r.pattern then
      let (a, s) := r.script.next
      (some a, { r with script := s } :: rs)
    else
      let (a, rs) := consult fits rs
      (a, r :: rs)

/-- The word after the first `-o`. -/
def outPath? : List String → Option String
  | [] => none
  | a :: rest => if a = "-o" then rest.head? else outPath? rest

/-- Writes what a program writes; a file that cannot be written is passed over. -/
def writeOut (argv : List String) (place : Location) (disk : Disk) : Option Bytes → Disk
  | none => disk
  | some b =>
    match outPath? argv with
    | none => disk
    | some p => match disk.tree.write place p b with
      | .ok t => { disk with tree := t }
      | .error _ => disk

def launch (argv : List String) (place : Location) (disk : Disk) (s : Sandbox) :
    Except IoError Exit × Disk × Sandbox :=
  if argv.head?.any s.programs.contains then
    let (reply, rules) := consult argv.contains s.rules
    let reply := reply.getD .silent
    (.ok reply.exit, writeOut argv place disk reply.out, { s with rules := rules })
  else (.error (.os .notFound), disk, s)

/-- The path of a request to the service. -/
def path? (s : Sandbox) (url : String) : Option String :=
  match s.service with
  | none => none
  | some base =>
    if base.toList.isPrefixOf url.toList then
      let rest := url.toList.drop base.length
      if rest.head? = some '/' then some (String.ofList rest) else none
    else none

def fetch (r : Request) (s : Sandbox) : Fetched × Sandbox :=
  match s.path? r.url with
  | none => (.failed "the service cannot be reached", s)
  | some path =>
    let (reply, routes) := consult (fun p => p.toList.isPrefixOf path.toList) s.routes
    (reply.getD (.answered 404 ByteArray.empty), { s with routes := routes })

def machine : Machine Sandbox where
  launch := launch
  launchCost _ _ _ _ := 0
  fetch := fetch
  fetchCost _ _ := 0

end Sandbox

end FaultSweep
