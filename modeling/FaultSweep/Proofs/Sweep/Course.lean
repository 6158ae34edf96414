import Mathlib
import FaultSweep.Sweep

/-!
# The course of a sweep

A run is a walk from progress to progress: a pass begins where the sweep is not done, and a trial is
made only of a cell that lacks records at that moment. What an invariant has to be checked against
is therefore one trial and the beginning of a pass, not the loops around them.
-/

namespace FaultSweep

variable {α W : Type}

theorem total_eq_sum (counts : List Nat) : total counts = counts.sum := by
  rw [total, List.sum_eq_foldr]

/-- A pass begins. -/
def Progress.nextPass (p : Progress W) : Progress W :=
  { p with summary := { p.summary with passes := p.summary.passes + 1 } }

/-- A trial is counted before it is made. -/
def Progress.tried (p : Progress W) (w : W) : Progress W :=
  { p with world := w, summary := { p.summary with attempts := p.summary.attempts + 1 } }

def Progress.recorded (p : Progress W) (l : Ledger) (w : W) : Progress W :=
  { p.tried w with ledger := l, summary :=
    { (p.tried w).summary with recorded := p.summary.recorded + 1 } }

def Progress.discarded (p : Progress W) (w : W) : Progress W :=
  { p.tried w with summary := { (p.tried w).summary with discarded := p.summary.discarded + 1 } }

/-- A run that ends well says what is still outstanding. -/
def Progress.closed (p : Progress W) (n : Nat) : Progress W :=
  { p with summary := { p.summary with outstanding := n } }

@[simp] theorem Progress.ledger_nextPass (p : Progress W) : p.nextPass.ledger = p.ledger := rfl
@[simp] theorem Progress.world_nextPass (p : Progress W) : p.nextPass.world = p.world := rfl
@[simp] theorem Progress.ledger_tried (p : Progress W) (w : W) :
    (p.tried w).ledger = p.ledger := rfl
@[simp] theorem Progress.world_tried (p : Progress W) (w : W) : (p.tried w).world = w := rfl
@[simp] theorem Progress.ledger_recorded (p : Progress W) (l : Ledger) (w : W) :
    (p.recorded l w).ledger = l := rfl
@[simp] theorem Progress.world_recorded (p : Progress W) (l : Ledger) (w : W) :
    (p.recorded l w).world = w := rfl
@[simp] theorem Progress.ledger_discarded (p : Progress W) (w : W) :
    (p.discarded w).ledger = p.ledger := rfl
@[simp] theorem Progress.world_discarded (p : Progress W) (w : W) :
    (p.discarded w).world = w := rfl
@[simp] theorem Progress.ledger_closed (p : Progress W) (n : Nat) :
    (p.closed n).ledger = p.ledger := rfl
@[simp] theorem Progress.world_closed (p : Progress W) (n : Nat) :
    (p.closed n).world = p.world := rfl

/-- The error of a ledger that cannot be written. -/
def Backend.refusal (b : Backend W) (e : IoError) : Fatal :=
  (Fatal.of (.io e)).within ("writing ledger " ++ b.describe)

namespace Sweep

/-- All that one trial can come to. -/
inductive Outcome (s : Sweep α) (b : Backend W) (trial : Trial α W) (c : α) (p : Progress W) :
    Option Halt × Progress W → Prop
  | hangs {w : W} (htrial : trial c p.world = (none, w)) :
      Outcome s b trial c p (some .unfinished, p.tried w)
  | records {r : TrialRecord} {w w' : W} (htrial : trial c p.world = (some r, w))
      (hkeep : r.status.isRecordable = true)
      (hwrite : b.replace (p.ledger.push (s.key c) r).encode w = (.ok (), w')) :
      Outcome s b trial c p (none, p.recorded (p.ledger.push (s.key c) r) w')
  | fails {r : TrialRecord} {w w' : W} {e : IoError} (htrial : trial c p.world = (some r, w))
      (hkeep : r.status.isRecordable = true)
      (hwrite : b.replace (p.ledger.push (s.key c) r).encode w = (.error e, w')) :
      Outcome s b trial c p (some (.failed (b.refusal e)), p.tried w')
  | discards {r : TrialRecord} {w : W} (htrial : trial c p.world = (some r, w))
      (hkeep : r.status.isRecordable = false) :
      Outcome s b trial c p (none, p.discarded w)

theorem attempt_of_hangs (s : Sweep α) (b : Backend W) {trial : Trial α W} {c : α}
    {p : Progress W} {w : W} (htrial : trial c p.world = (none, w)) :
    s.attempt b trial c p = (some .unfinished, p.tried w) := by
  simp only [attempt, htrial]
  rfl

theorem attempt_of_records {s : Sweep α} {b : Backend W} {trial : Trial α W} {c : α}
    {p : Progress W} {r : TrialRecord} {w w' : W} (htrial : trial c p.world = (some r, w))
    (hkeep : r.status.isRecordable = true)
    (hwrite : b.replace (p.ledger.push (s.key c) r).encode w = (.ok (), w')) :
    s.attempt b trial c p = (none, p.recorded (p.ledger.push (s.key c) r) w') := by
  simp only [attempt, htrial, hkeep, if_true, Ledger.append, hwrite]
  rfl

theorem attempt_of_fails {s : Sweep α} {b : Backend W} {trial : Trial α W} {c : α}
    {p : Progress W} {r : TrialRecord} {w w' : W} {e : IoError}
    (htrial : trial c p.world = (some r, w)) (hkeep : r.status.isRecordable = true)
    (hwrite : b.replace (p.ledger.push (s.key c) r).encode w = (.error e, w')) :
    s.attempt b trial c p = (some (.failed (b.refusal e)), p.tried w') := by
  simp only [attempt, htrial, hkeep, if_true, Ledger.append, hwrite]
  rfl

theorem attempt_of_discards (s : Sweep α) (b : Backend W) {trial : Trial α W} {c : α}
    {p : Progress W} {r : TrialRecord} {w : W} (htrial : trial c p.world = (some r, w))
    (hkeep : r.status.isRecordable = false) :
    s.attempt b trial c p = (none, p.discarded w) := by
  simp only [attempt, htrial, hkeep, Bool.false_eq_true, if_false]
  rfl

theorem attempt_outcome (s : Sweep α) (b : Backend W) (trial : Trial α W) (c : α)
    (p : Progress W) : Outcome s b trial c p (s.attempt b trial c p) := by
  cases htrial : trial c p.world with
  | mk o w =>
    cases o with
    | none => rw [attempt_of_hangs s b htrial]; exact .hangs htrial
    | some r =>
      cases hkeep : r.status.isRecordable with
      | false => rw [attempt_of_discards s b htrial hkeep]; exact .discards htrial hkeep
      | true =>
        cases hwrite : b.replace (p.ledger.push (s.key c) r).encode w with
        | mk reply w' =>
          cases reply with
          | error e => rw [attempt_of_fails htrial hkeep hwrite]; exact .fails htrial hkeep hwrite
          | ok u => rw [attempt_of_records htrial hkeep hwrite]; exact .records htrial hkeep hwrite

/-- A cell that lacks records. -/
def Short (s : Sweep α) (p : Progress W) (c : α) : Prop :=
  c ∈ s.cells ∧ 0 < p.ledger.remaining (s.key c) s.target

/-- The progress a run can come to, and stay on its way. -/
inductive Reaches (s : Sweep α) (b : Backend W) (trial : Trial α W) (p : Progress W) :
    Progress W → Prop
  | refl : Reaches s b trial p p
  | pass {q : Progress W} (h : Reaches s b trial p q)
      (hword : s.outstanding q.ledger < wordBound) (hopen : s.isDone q = false) :
      Reaches s b trial p q.nextPass
  | trial {q r : Progress W} {c : α} (h : Reaches s b trial p q) (hshort : s.Short q c)
      (hstep : s.attempt b trial c q = (none, r)) : Reaches s b trial p r

theorem Reaches.trans {s : Sweep α} {b : Backend W} {trial : Trial α W} {p q r : Progress W}
    (h : Reaches s b trial p q) (h' : Reaches s b trial q r) : Reaches s b trial p r := by
  induction h' with
  | refl => exact h
  | pass _ hword hopen ih => exact .pass ih hword hopen
  | trial _ hshort hstep ih => exact .trial ih hshort hstep

/-- How a walk over some of the trials leaves a run: on its way, or halted by a trial. -/
inductive Leads (s : Sweep α) (b : Backend W) (trial : Trial α W) (p : Progress W) :
    Option Halt × Progress W → Prop
  | on {q : Progress W} (h : Reaches s b trial p q) : Leads s b trial p (none, q)
  | halted {q r : Progress W} {c : α} {halt : Halt} (h : Reaches s b trial p q)
      (hshort : s.Short q c) (hstep : s.attempt b trial c q = (some halt, r)) :
      Leads s b trial p (some halt, r)

/-- How a run ends: done, halted by a trial, stopped by a total that is no word, or out of fuel. -/
inductive Ends (s : Sweep α) (b : Backend W) (trial : Trial α W) (p : Progress W) :
    Option Halt × Progress W → Prop
  | done {q : Progress W} (h : Reaches s b trial p q)
      (hword : s.outstanding q.ledger < wordBound) (hdone : s.isDone q = true) :
      Ends s b trial p (none, q.closed (s.outstanding q.ledger))
  | overflows {q : Progress W} (h : Reaches s b trial p q)
      (hover : wordBound ≤ s.outstanding q.ledger) : Ends s b trial p (some .overflow, q)
  | halted {q r : Progress W} {c : α} {halt : Halt} (h : Reaches s b trial p q)
      (hshort : s.Short q c) (hstep : s.attempt b trial c q = (some halt, r)) :
      Ends s b trial p (some halt, r)
  | spent {q : Progress W} (h : Reaches s b trial p q) : Ends s b trial p (some .unfinished, q)

/-- A trial that lets the run go on adds at most one record to its cell. -/
theorem remaining_attempt {s : Sweep α} {b : Backend W} {trial : Trial α W} {c : α}
    {p q : Progress W} (h : s.attempt b trial c p = (none, q)) :
    p.ledger.remaining (s.key c) s.target ≤ q.ledger.remaining (s.key c) s.target + 1 := by
  have ho := attempt_outcome s b trial c p
  rw [h] at ho
  cases ho with
  | records => simp [Ledger.remaining, Ledger.completed]; omega
  | discards => simp

/-- The trials of a cell are all made while the cell is short: it is given no more of them than it
lacked at first, and each adds at most one record. -/
theorem attempts_leads {s : Sweep α} {b : Backend W} {trial : Trial α W} {c : α}
    {p q : Progress W} {n : Nat} (h : Reaches s b trial p q) (hc : c ∈ s.cells)
    (hn : n ≤ q.ledger.remaining (s.key c) s.target) :
    Leads s b trial p (s.attempts b trial c n q) := by
  induction n generalizing q with
  | zero => exact .on h
  | succ n ih =>
    have hshort : s.Short q c := ⟨hc, by omega⟩
    unfold attempts
    split
    · next halt r hstep => exact .halted h hshort hstep
    · next r hstep =>
      have hle := remaining_attempt hstep
      exact ih (.trial h hshort hstep) (by omega)

theorem visit_leads {s : Sweep α} {b : Backend W} {trial : Trial α W} {p q : Progress W}
    (h : Reaches s b trial p q) (cs : List α) (hcs : ∀ c ∈ cs, c ∈ s.cells) :
    Leads s b trial p (s.visit b trial cs q) := by
  induction cs generalizing q with
  | nil => exact .on h
  | cons c cs ih =>
    have hfirst := attempts_leads h (hcs c (by simp))
      (n := q.ledger.remaining (s.key c) s.target) (Nat.le_refl _)
    unfold visit
    cases he : s.attempts b trial c (q.ledger.remaining (s.key c) s.target) q with
    | mk o r =>
      rw [he] at hfirst
      cases hfirst with
      | halted hr hshort hstep => exact .halted hr hshort hstep
      | on hr => exact ih hr (fun d hd => hcs d (List.mem_cons_of_mem _ hd))

/-- What a run comes to from where it stands, with some fuel left: it ends there, or it makes a pass
and then goes on from where this has led. -/
inductive Stands (s : Sweep α) (b : Backend W) (trial : Trial α W) (p : Progress W) :
    Nat → Option Halt × Progress W → Prop
  | overflows {fuel : Nat} (hover : wordBound ≤ s.outstanding p.ledger) :
      Stands s b trial p fuel (some .overflow, p)
  | done {fuel : Nat} (hword : s.outstanding p.ledger < wordBound) (hdone : s.isDone p = true) :
      Stands s b trial p fuel (none, p.closed (s.outstanding p.ledger))
  | spent (hword : s.outstanding p.ledger < wordBound) (hopen : s.isDone p = false) :
      Stands s b trial p 0 (some .unfinished, p)
  | halted {fuel : Nat} {halt : Halt} {q : Progress W}
      (hword : s.outstanding p.ledger < wordBound) (hopen : s.isDone p = false)
      (hvisit : s.visit b trial s.cells p.nextPass = (some halt, q)) :
      Stands s b trial p (fuel + 1) (some halt, q)
  | passed {fuel : Nat} {q : Progress W} {result : Option Halt × Progress W}
      (hword : s.outstanding p.ledger < wordBound) (hopen : s.isDone p = false)
      (hvisit : s.visit b trial s.cells p.nextPass = (none, q))
      (hrest : s.passes b trial fuel q = result) : Stands s b trial p (fuel + 1) result

theorem passes_stands (s : Sweep α) (b : Backend W) (trial : Trial α W) (fuel : Nat)
    (p : Progress W) : Stands s b trial p fuel (s.passes b trial fuel p) := by
  unfold passes
  split
  case isTrue hover => exact .overflows hover
  case isFalse hword =>
    have hword := Nat.not_le.1 hword
    cases hdone : s.isDone p with
    | true => exact .done hword hdone
    | false =>
      cases fuel with
      | zero => exact .spent hword hdone
      | succ fuel =>
        have hpass : s.pass b trial p = s.visit b trial s.cells p.nextPass := rfl
        simp only [Bool.false_eq_true, if_false, hpass]
        cases hvisit : s.visit b trial s.cells p.nextPass with
        | mk halt q =>
          cases halt with
          | some halt => exact .halted hword hdone hvisit
          | none => exact .passed hword hdone hvisit rfl

/-- How a run stands decides what it comes to. -/
theorem Stands.passes_eq {s : Sweep α} {b : Backend W} {trial : Trial α W} {p : Progress W}
    {fuel : Nat} {result : Option Halt × Progress W} (h : Stands s b trial p fuel result) :
    s.passes b trial fuel p = result := by
  have hpass : s.pass b trial p = s.visit b trial s.cells p.nextPass := rfl
  unfold passes
  cases h with
  | overflows hover => rw [if_pos hover]
  | done hword hdone => rw [if_neg (Nat.not_le.2 hword), if_pos hdone]; rfl
  | spent hword hopen => simp [Nat.not_le.2 hword, hopen]
  | halted hword hopen hvisit => simp [Nat.not_le.2 hword, hopen, hpass, hvisit]
  | passed hword hopen hvisit hrest => simp [Nat.not_le.2 hword, hopen, hpass, hvisit, hrest]

theorem passes_ends {s : Sweep α} {b : Backend W} {trial : Trial α W} {p q : Progress W}
    (h : Reaches s b trial p q) (fuel : Nat) : Ends s b trial p (s.passes b trial fuel q) := by
  induction fuel generalizing q with
  | zero =>
    have hstands := s.passes_stands b trial 0 q
    generalize s.passes b trial 0 q = result at hstands
    cases hstands with
    | overflows hover => exact .overflows h hover
    | done hword hdone => exact .done h hword hdone
    | spent => exact .spent h
  | succ fuel ih =>
    have hstands := s.passes_stands b trial (fuel + 1) q
    generalize s.passes b trial (fuel + 1) q = result at hstands
    have hvisits := fun hword hopen =>
      visit_leads (.pass h hword hopen) s.cells fun c hc => hc
    cases hstands with
    | overflows hover => exact .overflows h hover
    | done hword hdone => exact .done h hword hdone
    | halted hword hopen hvisit =>
      have hleads := hvisits hword hopen
      rw [hvisit] at hleads
      cases hleads with
      | halted hr hshort hstep => exact .halted hr hshort hstep
    | passed hword hopen hvisit hrest =>
      have hleads := hvisits hword hopen
      rw [hvisit] at hleads
      cases hleads with
      | on hr => exact hrest ▸ ih hr

/-- Every run walks from the loaded ledger by passes and by trials of cells that are short. -/
theorem run_ends (s : Sweep α) (fuel : Nat) (b : Backend W) (trial : Trial α W) (l : Ledger)
    (w : W) : Ends s b trial ⟨l, w, .start⟩ (s.run fuel b trial l w) :=
  passes_ends .refl fuel

end Sweep

end FaultSweep
