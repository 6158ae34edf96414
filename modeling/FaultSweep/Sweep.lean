import FaultSweep.Ledger.Store

/-!
# Sweeps

A sweep passes over its cells until each of them holds its target of records. In a pass every cell
gets as many trials as it lacks when its turn comes. A trial that is not recordable is dropped, and
its cell comes up again in the next pass; a ledger that cannot be written ends the sweep. What is
outstanding is counted before each pass, and the program stops there if it is no word.
-/

namespace FaultSweep

structure SweepSummary where
  passes : Nat
  attempts : Nat
  recorded : Nat
  discarded : Nat
  outstanding : Nat
  deriving DecidableEq

namespace SweepSummary

def start : SweepSummary := ⟨0, 0, 0, 0, 0⟩

def toJson (s : SweepSummary) : Json :=
  .obj [("passes", .nat s.passes), ("attempts", .nat s.attempts), ("recorded", .nat s.recorded),
    ("discarded", .nat s.discarded), ("outstanding", .nat s.outstanding)]

end SweepSummary

/-- The cells of a sweep, and when it is done. -/
structure Sweep (α : Type) where
  cells : List α
  key : α → ConfigurationKey
  target : Nat
  maxPasses : Option Nat

/-- A trial of a cell; none if the trial does not come to an end. -/
abbrev Trial (α W : Type) := α → W → Option TrialRecord × W

/-- Where a sweep stands. -/
structure Progress (W : Type) where
  ledger : Ledger
  world : W
  summary : SweepSummary

/-- Why a sweep goes no further. -/
inductive Halt where
  | failed (e : Fatal)
  /-- What is outstanding is no word. -/
  | overflow
  /-- The fuel is spent, or a trial does not end. -/
  | unfinished

/-- The sum of counts. Whoever takes it stops if it is no word. -/
def total (counts : List Nat) : Nat := counts.foldr (· + ·) 0

namespace Sweep

variable {α W : Type}

def outstanding (s : Sweep α) (l : Ledger) : Nat :=
  total (s.cells.map fun c => l.remaining (s.key c) s.target)

/-- Runs one trial of a cell. -/
def attempt (s : Sweep α) (b : Backend W) (trial : Trial α W) (c : α) (p : Progress W) :
    Option Halt × Progress W :=
  let tried := { p.summary with attempts := p.summary.attempts + 1 }
  match trial c p.world with
  | (none, w) => (some .unfinished, ⟨p.ledger, w, tried⟩)
  | (some r, w) =>
    if r.status.isRecordable then
      match p.ledger.append b (s.key c) r w with
      | (.error e, w) => (some (.failed e), ⟨p.ledger, w, tried⟩)
      | (.ok l, w) => (none, ⟨l, w, { tried with recorded := tried.recorded + 1 }⟩)
    else (none, ⟨p.ledger, w, { tried with discarded := tried.discarded + 1 }⟩)

/-- Runs a number of trials of a cell. -/
def attempts (s : Sweep α) (b : Backend W) (trial : Trial α W) (c : α) :
    Nat → Progress W → Option Halt × Progress W
  | 0, p => (none, p)
  | n + 1, p =>
    match s.attempt b trial c p with
    | (some h, p) => (some h, p)
    | (none, p) => attempts s b trial c n p

/-- Gives each of the cells the trials it lacks. -/
def visit (s : Sweep α) (b : Backend W) (trial : Trial α W) :
    List α → Progress W → Option Halt × Progress W
  | [], p => (none, p)
  | c :: cs, p =>
    match s.attempts b trial c (p.ledger.remaining (s.key c) s.target) p with
    | (some h, p) => (some h, p)
    | (none, p) => visit s b trial cs p

/-- One pass over all cells. -/
def pass (s : Sweep α) (b : Backend W) (trial : Trial α W) (p : Progress W) :
    Option Halt × Progress W :=
  s.visit b trial s.cells
    { p with summary := { p.summary with passes := p.summary.passes + 1 } }

/-- Nothing is outstanding, or the last pass that is allowed was made. -/
def isDone (s : Sweep α) (p : Progress W) : Bool :=
  s.outstanding p.ledger = 0 ||
    (match s.maxPasses with
    | some n => decide (n ≤ p.summary.passes)
    | none => false)

/-- Goes on with at most `fuel` passes. -/
def passes (s : Sweep α) (b : Backend W) (trial : Trial α W) :
    Nat → Progress W → Option Halt × Progress W
  | fuel, p =>
    if wordBound ≤ s.outstanding p.ledger then (some .overflow, p)
    else if s.isDone p then
      (none, { p with summary := { p.summary with outstanding := s.outstanding p.ledger } })
    else match fuel with
      | 0 => (some .unfinished, p)
      | fuel + 1 => match s.pass b trial p with
        | (some h, p) => (some h, p)
        | (none, p) => passes s b trial fuel p

/-- Runs a sweep from a loaded ledger. -/
def run (s : Sweep α) (fuel : Nat) (b : Backend W) (trial : Trial α W) (l : Ledger) (w : W) :
    Option Halt × Progress W :=
  s.passes b trial fuel ⟨l, w, .start⟩

end Sweep

end FaultSweep
