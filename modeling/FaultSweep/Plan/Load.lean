import FaultSweep.Files.Disk
import FaultSweep.Plan.Soundness

/-!
# Loading plans

A plan is read from a file and seen from the directory of that file. Some of its settings can be
overridden for one run.
-/

namespace FaultSweep

structure SweepOverrides where
  ledger : Option String
  target : Option Nat
  maxPasses : Option Nat
  deriving DecidableEq

namespace SweepOverrides

def unchanged : SweepOverrides := ⟨none, none, none⟩

def read {ν : Type} (r : Reader ν) (n : ν) : Option SweepOverrides := do
  let fs ← r.fields? ["ledger", "target", "max_passes"] n
  let count (name : String) := Reader.field fs name (some none) (r.option (r.nat? wordBound))
  return ⟨← Reader.field fs "ledger" (some none) (r.option r.text?), ← count "target",
    ← count "max_passes"⟩

end SweepOverrides

namespace SweepPlan

/-- An overriding ledger is not seen from the directory of the plan. -/
def withOverrides (p : SweepPlan) (o : SweepOverrides) : SweepPlan :=
  { p with
    ledger := o.ledger.getD p.ledger
    target := o.target.getD p.target
    maxPasses := o.maxPasses.or p.maxPasses }

/-- The directory of a file, without detours if it is there. -/
def directoryOf (d : Disk) (path : String) : String :=
  let parent := match Path.parent? path with
    | some q => if q = "" then "." else q
    | none => "."
  (d.tree.canonical? d.cwd parent).getD "."

def load (d : Disk) (path : String) : Except Fatal SweepPlan :=
  match d.read path with
  | .error e => .error ((Fatal.of (.io e)).within ("reading sweep plan " ++ path))
  | .ok b => match Utf8.decode? b with
    | none => .error ((Fatal.of (.io .notText)).within ("reading sweep plan " ++ path))
    | some text => match ofText text (directoryOf d path) with
      | .error e => .error ((Fatal.of e).within ("loading sweep plan " ++ path))
      | .ok p => .ok p

/-- A plan with its overrides, which still has to ask for a trial. -/
def loadWith (d : Disk) (path : String) (o : SweepOverrides) : Except Fatal SweepPlan :=
  match load d path with
  | .error e => .error e
  | .ok p =>
    let p := p.withOverrides o
    if p.target = 0 then .error (.of .targetZero) else .ok p

end SweepPlan

end FaultSweep
