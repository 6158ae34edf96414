import FaultSweep.Proofs.Campaign.Account
import FaultSweep.Proofs.Grid.Overlay
import FaultSweep.Proofs.Trial.Attainment

/-!
# Where records come from

On its way into the ledger a record passes through the expansion of the grid, the order of the
cells, the executor of trials and the making of argument vectors. What is entered for a cell comes
from a trial that did what the script of this very cell says, and nothing else.
-/

namespace FaultSweep

namespace Campaign

variable {σ : Type} {m : Machine σ} {fuel : Nat} {path : String} {o : SweepOverrides}
  {p : SweepPlan} {cs : List Cell} {l : Ledger} {w : World σ}

/-- A record is a measurement of its cell: the cell has the parameters that its key gives it, which
are the defaults of the plan where the key says nothing, and the payload that is declared for their
size, and the record comes from a trial, made on the way of the sweep, that did all the script of
the cell asks for and then took the topology down. -/
structure Provenance (m : Machine σ) (p : SweepPlan) (cs : List Cell) (start : Progress (World σ))
    (c : Cell) (r : TrialRecord) : Prop where
  params : p.defaults.resolve c.key = .ok c.params
  values : ∀ d, c.params.value d = (lastValue? d c.key.entries).getD (p.defaults.value d)
  payload : p.payloads.get? c.params.payloadSize = some c.payload
  trial : ∃ q v effects, (sweepOf p cs).Reaches (backend p) (trialOf m p) start q ∧
    trialOf m p c q.world = (some r, v) ∧ v.trace = q.world.trace ++ effects ∧
    effects.map Effect.deed ∈ script p c * {takedown p}
  status : r.status = .success ∨ r.status = .shortfall
  phase : r.phase = .completed
  detail : r.detail = none

theorem Conducted.follows_script {c : Cell} {u v : World σ} {es : List Event} {r : TrialRecord}
    (h : Conducted m p c u es r v) (hr : r.status.isRecordable = true) :
    es.map Event.deed ∈ script p c * {takedown p} := by
  obtain ⟨body, down, rfl, -, hdown, rest, hscript, hrest⟩ := h.events
  obtain rfl := hrest hr
  rw [List.append_nil] at hscript
  rw [List.map_append]
  exact Language.append_mem_mul hscript hdown

theorem Made.provenance (h : prepare path o w = .ok (p, cs, l)) {start : Progress (World σ)}
    {t : Trip} (ht : Made m p cs start t) (hr : t.record.status.isRecordable = true) :
    Provenance m p cs start t.cell t.record := by
  obtain ⟨-, -, hneeds, -⟩ := prepare_ok h
  obtain ⟨hc, q, v, hreach, hconducted⟩ := ht
  obtain ⟨hparams, hpayload⟩ := hneeds t.cell hc
  obtain ⟨effects, htrace, hdeeds⟩ := hconducted.happens.traced
  obtain ⟨hstatus, hphase, hdetail⟩ := hconducted.completed hr
  have hvalues := (TrialParameters.overlay_eq_ok_iff.1 hparams).2
  refine ⟨hparams, hvalues, hpayload, ⟨q, v, effects, hreach, hconducted.ran, htrace, ?_⟩,
    hstatus, hphase, hdetail⟩
  rw [hdeeds]
  exact hconducted.follows_script hr

theorem Concludes.reaches {start last : Progress (World σ)} {halt : Option Halt}
    (h : Concludes m p cs start (halt, last)) : ∃ q,
      (sweepOf p cs).Reaches (backend p) (trialOf m p) start q ∧ last.ledger = q.ledger := by
  cases h with
  | done hreach => exact ⟨_, hreach, rfl⟩
  | failed hreach => exact ⟨_, hreach, rfl⟩
  | overflows hreach => exact ⟨_, hreach, rfl⟩
  | unfinished hreach hlast => exact ⟨_, hreach, hlast⟩

/-- However the machine behaves, and wherever the sweep ends, each record that was entered into the
ledger under the key of a cell is a measurement of this cell. -/
theorem records_come_from_their_cells (m : Machine σ) (fuel : Nat)
    (h : prepare path o w = .ok (p, cs, l)) :
    p.keys = .ok (cs.map Cell.key) ∧
    (run m fuel path o w).2 = (sweep m fuel p cs l w).2.world ∧
    ∃ es, (sweep m fuel p cs l w).2.ledger = l.pushAll es ∧
      ∀ e ∈ es, ∃ c ∈ cs, c.key = e.1 ∧ Provenance m p cs (outset m p l w) c e.2 := by
  obtain ⟨-, hkeys, -, -⟩ := prepare_ok h
  obtain ⟨q, hreach, hledger⟩ := (sweep_concludes m fuel p cs l w).reaches
  obtain ⟨ts, haccount⟩ := exists_account hreach
  refine ⟨hkeys, world_run h, kept ts, hledger.trans haccount.ledger, ?_⟩
  intro e he
  obtain ⟨t, ht, hkeep, rfl⟩ := mem_kept.1 he
  exact ⟨t.cell, (haccount.made t ht).1, rfl, (haccount.made t ht).provenance h hkeep⟩

/-! ### A small campaign -/

/-- Two cells, which differ in how deep they repair, and a renderer with a template. -/
def smallPlan : String :=
  "family: collab_repair\ntarget: 1\ngrid: [\x7bdimension: repair_depth, values: [1, 2]\x7d]\n" ++
  "payloads: \x7b25MB: \x7bpath: f, file_cid: F, meta_cid: M\x7d\x7d\n" ++
  "topology:\n  render_command:\n    - gen\n    - -n\x7bnodes\x7d\n" ++
  "    - d\x7bdepth\x7d/\x7bpayload\x7d,\x7bcommunity\x7d\n"

/-- The plan stands in the working directory. -/
def smallDisk (refusal : ReplaceStep → Option IoError) : Disk :=
  ⟨⟨[(["srv"], .directory), (["srv", "plan.yaml"], .file (Utf8.encode smallPlan))]⟩, ["srv"],
    refusal, 0⟩

def smallWorld (refusal : ReplaceStep → Option IoError) : World Unit :=
  ⟨(), smallDisk refusal, .start, []⟩

/-- All ten peers are there, and every repair is done at once. -/
def smallMachine : Machine Unit :=
  .answering fun url =>
    if url = "http://localhost:3000/metrics" then .nat 7
    else if url = "http://localhost:3000/done" then .bool true
    else if url = "http://localhost:3000/peers" then .arr (List.replicate 10 .null)
    else .obj []

/-- The arguments with which a program was started, time by time. -/
def startsOf (program : String) (w : World σ) : List (List String) :=
  w.trace.filterMap fun
    | .launch argv _ (some _) => if argv.head? = some program then some argv.tail else none
    | _ => none

/-- The renderer is started once for each of the cells. -/
theorem small_run : ∃ res w',
    run smallMachine 1 "plan.yaml" .unchanged (smallWorld fun _ => none) = (.ok (.ok res), w') ∧
    res.summary = ⟨1, 2, 2, 0, 0⟩ ∧
    startsOf "gen" w' = [["-n10", "d1/25MB,true"], ["-n10", "d2/25MB,true"]] := by
  have heval : (run smallMachine 1 "plan.yaml" .unchanged (smallWorld fun _ => none)).1.toOption.map
        (·.toOption.map SweepResult.summary) = some (some ⟨1, 2, 2, 0, 0⟩) ∧
      startsOf "gen" (run smallMachine 1 "plan.yaml" .unchanged (smallWorld fun _ => none)).2 =
        [["-n10", "d1/25MB,true"], ["-n10", "d2/25MB,true"]] := by
    decide +kernel
  obtain ⟨hsummary, hstarts⟩ := heval
  obtain ⟨res, w', hrun, hsummary⟩ := exists_of_summary hsummary
  rw [hrun] at hstarts
  exact ⟨res, w', hrun, hsummary, hstarts⟩

/-- Both cells get their record, and the renderer was started for each of them. -/
theorem both_records_come_from_their_cells : ∃ p cs l es,
    prepare "plan.yaml" .unchanged (smallWorld fun _ => none) = .ok (p, cs, l) ∧
    (sweep smallMachine 1 p cs l (smallWorld fun _ => none)).2.summary = ⟨1, 2, 2, 0, 0⟩ ∧
    startsOf "gen" (sweep smallMachine 1 p cs l (smallWorld fun _ => none)).2.world =
      [["-n10", "d1/25MB,true"], ["-n10", "d2/25MB,true"]] ∧
    (sweep smallMachine 1 p cs l (smallWorld fun _ => none)).2.ledger = l.pushAll es ∧
    ∀ e ∈ es, ∃ c ∈ cs, c.key = e.1 ∧
      Provenance smallMachine p cs (outset smallMachine p l (smallWorld fun _ => none)) c e.2 := by
  obtain ⟨res, w', hrun, hsummary, hstarts⟩ := small_run
  obtain ⟨p, cs, l, last, hprepare, hsweep, rfl, rfl⟩ := sweep_of_run_ok hrun
  obtain ⟨-, -, es, hledger, hes⟩ := records_come_from_their_cells smallMachine 1 hprepare
  refine ⟨p, cs, l, es, hprepare, ?_, ?_, hledger, hes⟩
  · rw [hsweep]
    exact hsummary
  · rw [hsweep]
    exact hstarts

end Campaign

end FaultSweep
