import FaultSweep.Proofs.Campaign.Account
import FaultSweep.Proofs.Files.Atomic

/-!
# The ledger file in a campaign

Between two records a campaign does not touch its ledger file: the programs that it starts leave the
file alone, and the scratch files that it removes have names of their own. So the file holds what
was written last, and what it held at first as long as nothing was written.
-/

namespace FaultSweep

namespace Campaign

variable {σ : Type} {m : Machine σ} {path : String} {o : SweepOverrides} {p : SweepPlan}
  {cs : List Cell} {l : Ledger} {w : World σ}

/-! ### What may be tried -/

/-- What a campaign may try: the commands of a takedown, and what the script of a cell says. -/
def Tried (p : SweepPlan) (cs : List Cell) (d : Deed) : Prop :=
  d ∈ takedown p ∨ ∃ c ∈ cs, ∃ ds ∈ script p c, d ∈ ds

theorem tried_of_fall {es : List Event} (h : es ∈ fall p) {e : Event} (he : e ∈ es) :
    Tried p cs e.deed := by
  have hdeeds : es.map Event.deed = takedown p := h
  refine .inl ?_
  rw [← hdeeds]
  exact List.mem_map_of_mem he

theorem Conducted.tried {c : Cell} {u v : World σ} {es : List Event} {r : TrialRecord}
    (h : Conducted m p c u es r v) (hc : c ∈ cs) {e : Event} (he : e ∈ es) :
    Tried p cs e.deed := by
  obtain ⟨body, down, rfl, -, hdown, rest, hscript, -⟩ := h.events
  rcases List.mem_append.1 he with he | he
  · exact .inr ⟨c, hc, _, hscript, List.mem_append_left _ (List.mem_map_of_mem he)⟩
  · exact tried_of_fall hdown he

/-- The programs that a campaign may start leave a file alone. -/
def Avoids (m : Machine σ) (p : SweepPlan) (cs : List Cell) (file : String) : Prop :=
  ∀ argv dir, Tried p cs (.launch argv dir) →
    ∀ l (d : Disk) s, d.Spares file (m.launch argv l d s).2.1

/-- A file that is no scratch file of a plan. -/
def Apart (p : SweepPlan) (cwd : Location) (file : String) : Prop :=
  ∀ d : Disk, Path.place cwd file ≠ Path.place cwd ((client p).scratchPath d)

theorem getLast?_scratch (p : SweepPlan) (cwd : Location) (d : Disk) :
    (Path.place cwd ((client p).scratchPath d)).getLast? =
      some (".downloadcnt." ++ d.stamp ++ ".out") := by
  have hname := d.isName_stamped ".downloadcnt." ".out" (by decide) (by decide) (by decide)
  have hplace : Path.place cwd ((client p).scratchPath d) = _ := Path.place_join cwd p.baseDir hname
  rw [hplace, List.getLast?_concat]

/-- Scratch files have names that begin with a dot. -/
theorem apart_of_head {file name : String} (h : Path.fileName? file = some name)
    (hhead : name.toList.head? ≠ some '.') (cwd : Location) : Apart p cwd file := by
  intro d heq
  have hlast := congrArg List.getLast? heq
  rw [getLast?_scratch, Path.place_of_fileName? cwd h, List.getLast?_concat] at hlast
  refine hhead ?_
  rw [Option.some.inj hlast, String.toList_append, String.toList_append]
  rfl

/-- The use of scratch files leaves all other files alone. -/
theorem Scratches.spares {d d' : Disk} {file : String} (h : Scratches p d d')
    (happart : Apart p d.cwd file) (hsettled : d.Settled file) : d.Spares file d' := by
  cases h with
  | spend => exact Disk.spares_spend file d
  | discard e => exact Disk.spares_discard hsettled (happart e)

/-! ### What a campaign keeps -/

/-- What the programs of a campaign and its scratch files do not break, and what holds again when a
record was written. It may speak of the number of records written and of the ledger. -/
structure Invariant (m : Machine σ) (p : SweepPlan) (cs : List Cell)
    (I : Nat → Ledger → Disk → Prop) : Prop where
  launch : ∀ n l argv dir, Tried p cs (.launch argv dir) →
    ∀ k d s, I n l d → I n l (m.launch argv k d s).2.1
  scratch : ∀ n l d d', Scratches p d d' → I n l d → I n l d'
  write : ∀ n l k r d d', I n l d → d.replace p.ledger (l.push k r).encode = (.ok (), d') →
    I (n + 1) (l.push k r) d'

namespace Invariant

variable {I : Nat → Ledger → Disk → Prop} {n : Nat}

theorem happens (h : Invariant m p cs I) {u v : World σ} {es : List Event}
    (hes : World.Happens m (Scratches p) u es v) (htried : ∀ e ∈ es, Tried p cs e.deed)
    (hu : I n l u.disk) : I n l v.disk :=
  hes.keeps_disk (fun argv dir _ he k d s => h.launch n l argv dir (htried _ he) k d s)
    (h.scratch n l) hu

theorem outset (h : Invariant m p cs I) (hw : I n l w.disk) :
    I n l (outset m p l w).world.disk := by
  obtain ⟨es, hfall, hhappens⟩ := answers_teardown m p w
  exact h.happens hhappens (fun e he => tried_of_fall hfall he) hw

theorem conducted (h : Invariant m p cs I) {c : Cell} (hc : c ∈ cs) {u v : World σ}
    {es : List Event} {r : TrialRecord} (ht : Conducted m p c u es r v) (hu : I n l u.disk) :
    I n l v.disk :=
  h.happens ht.happens (fun _ => ht.tried hc) hu

/-- What one trial keeps is kept on the whole way. -/
theorem reaches (h : Invariant m p cs I) {start q : Progress (World σ)}
    (hq : (sweepOf p cs).Reaches (backend p) (trialOf m p) start q)
    (hstart : I start.summary.recorded start.ledger start.world.disk) :
    I q.summary.recorded q.ledger q.world.disk := by
  induction hq with
  | refl => exact hstart
  | pass _ _ _ ih => exact ih
  | @trial q r c _ hshort hstep ih =>
    have houtcome := Sweep.attempt_outcome (sweepOf p cs) (backend p) (trialOf m p) c q
    rw [hstep] at houtcome
    cases houtcome with
    | @records rec v v' htrial _ hwrite =>
      obtain ⟨es, hconducted⟩ := conducted_of_trial htrial
      have hv := h.conducted hshort.1 hconducted ih
      rw [replace_backend] at hwrite
      obtain ⟨hok, rfl⟩ := Prod.mk.inj hwrite
      exact h.write _ _ _ _ _ _ hv (Prod.ext hok rfl)
    | @discards rec v htrial =>
      obtain ⟨es, hconducted⟩ := conducted_of_trial htrial
      exact h.conducted hshort.1 hconducted ih

end Invariant

/-! ### The ledger file -/

theorem settled_of_load (h : Ledger.load (backend p) w = .ok l) : w.disk.Settled p.ledger := by
  unfold Ledger.load at h
  split at h
  · cases h
  · next stored hread =>
    have hdisk : (Disk.backend p.ledger).read w.disk = .ok stored := hread
    unfold Disk.backend at hdisk
    dsimp only at hdisk
    split at hdisk
    · next b hb => exact .inl ⟨b, hb⟩
    · next hmissing => exact .inr hmissing
    · cases hdisk

/-- The ledger file when `n` records were written and the ledger is `l'`, in a campaign that started
with `l`. -/
structure LedgerFile (p : SweepPlan) (start : Disk) (l : Ledger) (n : Nat) (l' : Ledger)
    (d : Disk) : Prop where
  cwd : d.cwd = start.cwd
  untouched : n = 0 → l' = l ∧ start.Spares p.ledger d
  written : n ≠ 0 → d.read p.ledger = .ok l'.encode

namespace LedgerFile

variable {start d d' : Disk} {n : Nat} {l' : Ledger}

theorem start_of (p : SweepPlan) (start : Disk) (l : Ledger) : LedgerFile p start l 0 l start :=
  ⟨rfl, fun _ => ⟨rfl, .refl _ _⟩, fun h => absurd rfl h⟩

theorem spares (h : LedgerFile p start l n l' d) (hd : d.Spares p.ledger d') :
    LedgerFile p start l n l' d' where
  cwd := hd.cwd.trans h.cwd
  untouched hn := ⟨(h.untouched hn).1, (h.untouched hn).2.trans hd⟩
  written hn := hd.read.trans (h.written hn)

theorem settled (h : LedgerFile p start l n l' d) (hstart : start.Settled p.ledger) :
    d.Settled p.ledger := by
  by_cases hn : n = 0
  · unfold Disk.Settled
    rw [(h.untouched hn).2.read]
    exact hstart
  · exact .inl ⟨_, h.written hn⟩

theorem invariant (hprograms : Avoids m p cs p.ledger) (happart : Apart p start.cwd p.ledger)
    (hstart : start.Settled p.ledger) : Invariant m p cs (LedgerFile p start l) where
  launch _ _ argv dir htried k d s h := h.spares (hprograms argv dir htried k d s)
  scratch _ _ d d' hscratch h := by
    refine h.spares (hscratch.spares ?_ (h.settled hstart))
    rw [h.cwd]
    exact happart
  write n l' k r d d' h hwrite :=
    ⟨(Disk.alters_replace hwrite).1.cwd.trans h.cwd, fun hn => absurd hn n.succ_ne_zero,
      fun _ => Disk.read_of_replace hwrite⟩

/-- The ledger file at any point of a campaign. -/
theorem reached (hload : Ledger.load (backend p) w = .ok l) (hprograms : Avoids m p cs p.ledger)
    (happart : Apart p w.disk.cwd p.ledger) {q : Progress (World σ)}
    (hreach : (sweepOf p cs).Reaches (backend p) (trialOf m p) (outset m p l w) q) :
    LedgerFile p w.disk l q.summary.recorded q.ledger q.world.disk := by
  have hkeeps : Invariant m p cs (LedgerFile p w.disk l) :=
    invariant hprograms happart (settled_of_load hload)
  exact hkeeps.reaches hreach (hkeeps.outset (start_of p w.disk l))

end LedgerFile

end Campaign

end FaultSweep
