import FaultSweep.Console.Options
import FaultSweep.Json.Printer

/-!
# Replies

What the program says and how it ends: lines for people, or one line of JSON. Misused arguments end
it with 2, a command that fails with 1, and a total that is no word with 101.
-/

namespace FaultSweep.Console

structure Reply where
  exit : Nat
  lines : List String
  /-- What goes to the messages. -/
  complaint : Option String

def usage : List String :=
  ["Resumable fault-injection sweep runner", "", "Usage: sweep <COMMAND>", "",
    "  run <PLAN> [--ledger FILE] [--target N] [--max-passes N] [--json]",
    "  status <PLAN> [--ledger FILE] [--target N] [--json]",
    "  teardown <PLAN> [--json]",
    "  download <PLAN> [--payload SIZE] [--depth N] [--address ADDRESS] [--json]"]

def said (lines : List String) : Reply := ⟨0, lines, none⟩

def succeeded (command name : String) (v : Json) : Reply :=
  said [(Json.obj [("ok", .bool true), ("command", .str command), (name, v)]).compact]

def failureJson (e : Fatal) : Json :=
  .obj [("ok", .bool false),
    ("error", .obj [("code", .str "command_failed"), ("message", .str e.message),
      ("details", .obj [("chain", .ofStrings e.chain.tail)])])]

def failed (json : Bool) (e : Fatal) : Reply :=
  if json then ⟨1, [(failureJson e).compact], none⟩ else ⟨1, [], some ("Error: " ++ e.line)⟩

def labelled (label : String) (n : Nat) : String := label ++ ": " ++ Decimal.text n

def resultLines (r : SweepResult) : List String :=
  ["family: " ++ r.family.name, "ledger: " ++ r.ledger, labelled "cells" r.cells,
    labelled "target" r.target, labelled "passes" r.summary.passes,
    labelled "attempts" r.summary.attempts, labelled "recorded" r.summary.recorded,
    labelled "discarded" r.summary.discarded, labelled "outstanding" r.summary.outstanding]

def cellLine (c : CellStatus) : String :=
  c.key ++ ": completed " ++ Decimal.text c.completed ++ ", remaining " ++ Decimal.text c.remaining

def statusLines (s : SweepStatus) : List String :=
  ["family: " ++ s.family.name, "ledger: " ++ s.ledger, labelled "target" s.target] ++
    s.cells.map cellLine ++ [labelled "outstanding" s.outstanding]

/-- The reply to an outcome, as JSON or as lines. -/
def reply {α : Type} (json : Bool) (command name : String) (value : α → Json)
    (lines : α → List String) : Except Fatal α → Reply
  | .error e => failed json e
  | .ok a => if json then succeeded command name (value a) else said (lines a)

/-- The reply to what a campaign came to; none if a sweep does not end. -/
def concluded {α : Type} (said : Except Fatal α → Reply) :
    Except Campaign.Stop (Except Fatal α) → Option Reply
  | .ok r => some (said r)
  | .error .overflow => some ⟨101, [], some "attempt to add with overflow"⟩
  | .error .unfinished => none

variable {σ : Type}

/-- Does what is asked for; none if a sweep does not end within `fuel` passes. -/
def answer (m : Machine σ) (fuel : Nat) (r : Request) (w : World σ) :
    Option Reply × World σ :=
  match r with
  | .help => (some (said usage), w)
  | .version => (some (said ["sweep 0.3.0"]), w)
  | .run plan o json =>
    let (r, w) := Campaign.run m fuel plan o w
    (concluded (reply json "run" "result" SweepResult.toJson resultLines) r, w)
  | .status plan o json =>
    (concluded (reply json "status" "status" SweepStatus.toJson statusLines)
      (Campaign.status plan o w), w)
  | .teardown plan json =>
    let (r, w) := Campaign.teardown m plan w
    (some (reply json "teardown" "plan" (fun _ => .str plan) (fun _ => ["ok"]) r), w)
  | .download plan request json =>
    let (r, w) := Campaign.download m plan request w
    (some (reply json "download" "download" Downloaded.toJson
      (fun d => ["downloaded: " ++ d.fileCid]) r), w)

/-- The reply to a list of arguments. -/
def run (m : Machine σ) (fuel : Nat) (args : List String) (w : World σ) :
    Option Reply × World σ :=
  match read? args with
  | none => (some ⟨2, [], some "error: the arguments are not understood; see sweep --help"⟩, w)
  | some r => answer m fuel r w

end FaultSweep.Console
