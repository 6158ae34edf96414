import FaultSweep.Proofs.Campaign.LedgerFile
import FaultSweep.Proofs.Campaign.Topologies

/-!
# Runs that fail

All that can be wrong with a plan or its ledger is found before anything is tried, and whatever goes
wrong in a trial becomes a record of it. What is left is a ledger that cannot be written. Then the
topology of the last trial is down already, and the file holds all records but the last.
-/

namespace FaultSweep

namespace Campaign

variable {σ : Type} {m : Machine σ} {fuel : Nat} {path : String} {o : SweepOverrides}
  {p : SweepPlan} {cs : List Cell} {l : Ledger} {w : World σ}

theorem message_unwritten (p : SweepPlan) (x : IoError) :
    (unwritten p x).message = "writing ledger " ++ p.ledger := rfl

/-- A run that ended since the record of its last trial could not be written. It had come to `q`,
and the trial was one more. -/
structure Stranded (m : Machine σ) (p : SweepPlan) (cs : List Cell) (l : Ledger) (w : World σ)
    (q : Progress (World σ)) (x : IoError) (w' : World σ) : Prop where
  reaches : (sweepOf p cs).Reaches (backend p) (trialOf m p) (outset m p l w) q
  refused : ∃ c ∈ cs, ∃ es r v, Conducted m p c q.world es r v ∧ r.status.isRecordable = true ∧
    v.disk.replace p.ledger (q.ledger.push c.key r).encode = (.error x, w'.disk)
  events : ∃ es ∈ fall p * (bout p * fall p) ^ (q.summary.attempts + 1),
    World.Happens m (Handles p) w es w'
  untouched : q.summary.recorded = 0 → w'.disk.fileAt p.ledger = w.disk.fileAt p.ledger ∧
    ∀ b, w.disk.read p.ledger = .ok b → w'.disk.read p.ledger = .ok b
  written : q.summary.recorded ≠ 0 → w'.disk.read p.ledger = .ok q.ledger.encode

/-- The ledger file after a record could not be written. -/
theorem LedgerFile.of_refused {start d d' : Disk} {n : Nat} {l' : Ledger} {b : Utf8.Bytes}
    {x : IoError} (h : LedgerFile p start l n l' d)
    (hwrite : d.replace p.ledger b = (.error x, d')) :
    (n = 0 → d'.fileAt p.ledger = start.fileAt p.ledger ∧
      ∀ c, start.read p.ledger = .ok c → d'.read p.ledger = .ok c) ∧
    (n ≠ 0 → d'.read p.ledger = .ok l'.encode) := by
  have hintact := Disk.intact_of_replace_error hwrite
  refine ⟨fun hn => ?_, fun hn => hintact.read _ (h.written hn)⟩
  obtain ⟨-, hspares⟩ := h.untouched hn
  exact ⟨hintact.file.trans hspares.file, fun c hc => hintact.read c (hspares.read.trans hc)⟩

/-- A sweep that fails is stranded. -/
theorem stranded_of_sweep {last : Progress (World σ)} {e : Fatal}
    (hsweep : sweep m fuel p cs l w = (some (.failed e), last))
    (hload : Ledger.load (backend p) w = .ok l) (hprograms : Avoids m p cs p.ledger)
    (happart : Apart p w.disk.cwd p.ledger) :
    ∃ q x, e = unwritten p x ∧ Stranded m p cs l w q x last.world := by
  have hconcludes := sweep_concludes m fuel p cs l w
  rw [hsweep] at hconcludes
  obtain ⟨es, hes, hhappens⟩ := hconcludes.bouts rfl fun h => by cases h
  obtain ⟨down, hdown, hstart⟩ := happens_outset m p l w
  cases hconcludes with
  | @failed q c trial r v x d hreach hc hconducted hkeep hwrite =>
    have hkeeps : Invariant m p cs (LedgerFile p w.disk l) :=
      LedgerFile.invariant hprograms happart (settled_of_load hload)
    have hfile := LedgerFile.reached hload hprograms happart hreach
    obtain ⟨huntouched, hwritten⟩ := (hkeeps.conducted hc hconducted hfile).of_refused hwrite
    exact ⟨q, x, rfl, hreach, ⟨c, hc, trial, r, v, hconducted, hkeep, hwrite⟩,
      ⟨down ++ es, Language.append_mem_mul hdown hes, hstart.trans hhappens⟩, huntouched, hwritten⟩

/-- A run that fails has done nothing at all, or it could not write its ledger. Then its message
says so, at least one trial was made, every topology was taken down, and the ledger file is the one
that was written last, or the one of before if there was none. -/
theorem failed_run_does_no_harm {e : Fatal} {w' : World σ}
    (h : run m fuel path o w = (.ok (.error e), w'))
    (hspare : ∀ p cs l, prepare path o w = .ok (p, cs, l) →
      Avoids m p cs p.ledger ∧ Apart p w.disk.cwd p.ledger) :
    (prepare path o w = .error e ∧ w' = w) ∨
    ∃ p cs l q x, prepare path o w = .ok (p, cs, l) ∧
      e = unwritten p x ∧ e.message = "writing ledger " ++ p.ledger ∧
      Stranded m p cs l w q x w' := by
  rcases sweep_of_run h with ⟨e', hprepare, hr, hw⟩ |
    ⟨p, cs, l, halt, last, hprepare, hsweep, rfl, ⟨-, hr⟩ | ⟨e', rfl, hr⟩⟩
  · cases hr
    exact .inl ⟨hprepare, hw⟩
  · cases hr
  · cases hr
    obtain ⟨hprograms, happart⟩ := hspare p cs l hprepare
    obtain ⟨-, -, -, hload⟩ := prepare_ok hprepare
    obtain ⟨q, x, rfl, hstranded⟩ := stranded_of_sweep hsweep hload hprograms happart
    exact .inr ⟨p, cs, l, q, x, hprepare, rfl, message_unwritten p x, hstranded⟩

/-- A full disk: a file can be made, but its bytes do not get there. -/
def fullWorld : World Unit :=
  smallWorld fun step => if step = .sync then some (.other "no space left") else none

/-- The first of the two cells is measured, and its record cannot be written. -/
theorem full_disk_does_no_harm : ∃ e w' p cs l q x,
    run smallMachine 1 "plan.yaml" .unchanged fullWorld = (.ok (.error e), w') ∧
    e = unwritten p x ∧ e.message = "writing ledger " ++ p.ledger ∧
    Stranded smallMachine p cs l fullWorld q x w' := by
  have heval : (run smallMachine 1 "plan.yaml" .unchanged fullWorld).1.toOption.map Except.isOk =
      some false := by
    decide +kernel
  have hname : (prepare "plan.yaml" .unchanged fullWorld).toOption.map
      (fun found => Path.fileName? found.1.ledger) = some (some "results.json") := by
    decide +kernel
  generalize hrun : run smallMachine 1 "plan.yaml" .unchanged fullWorld = reply at heval ⊢
  obtain ⟨_ | e | res, w'⟩ := reply
  · cases heval
  · have hspare : ∀ p cs l, prepare "plan.yaml" .unchanged fullWorld = .ok (p, cs, l) →
        Avoids smallMachine p cs p.ledger ∧ Apart p fullWorld.disk.cwd p.ledger := by
      intro p cs l hprepare
      rw [hprepare] at hname
      exact ⟨fun _ _ _ _ d _ => .refl _ d,
        apart_of_head (Option.some.inj hname) (by decide) _⟩
    rcases failed_run_does_no_harm hrun hspare with ⟨hprepare, -⟩ |
      ⟨p, cs, l, q, x, -, he, hmessage, hstranded⟩
    · rw [hprepare] at hname
      cases hname
    · exact ⟨e, w', p, cs, l, q, x, rfl, he, hmessage, hstranded⟩
  · cases heval

end Campaign

end FaultSweep
