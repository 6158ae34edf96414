import FaultSweep.Gateway.Client
import FaultSweep.Proofs.Files.Atomic
import FaultSweep.Proofs.World.Events

/-!
# Scratch files

A count is asked for by a program that writes it to a file named for it. Once the program has ended
well the file is removed, whether or not anything can be read from it. A program that ended badly is
not followed up: what it wrote until then stays.
-/

namespace FaultSweep

open Utf8 (Bytes)

namespace Disk

variable {d d' : Disk} {p : String} {l : Location}

/-- What becomes of a disk if nothing is done to it but that, perhaps, a file is written. -/
inductive Touches (p : String) (d : Disk) : Disk → Prop
  | spares : Touches p d d
  | writes {t : FileTree} {b : Bytes} (h : d.tree.write d.cwd p b = .ok t) :
      Touches p d { d with tree := t }

theorem Touches.cwd (h : Touches p d d') : d'.cwd = d.cwd := by
  cases h <;> rfl

theorem Touches.get? (h : Touches p d d') (hl : l ≠ Path.place d.cwd p) :
    d'.tree.get? l = d.tree.get? l := by
  cases h with
  | spares => rfl
  | writes h =>
    obtain ⟨k, hlocate, -, -, hothers⟩ := FileTree.write_ok h
    exact hothers l (FileTree.locate_place hlocate ▸ hl)

/-- A file that was not there before can be removed, if it is there after it may have been
written. -/
theorem Touches.discard (h : Touches p d d') (hfree : d.tree.get? (Path.place d.cwd p) = none) :
    (d'.discard p).cwd = d.cwd ∧ ∀ l, (d'.discard p).tree.get? l = d.tree.get? l := by
  unfold Disk.discard
  rw [h.cwd]
  cases h with
  | spares =>
    cases hremove : d.tree.remove d.cwd p with
    | error e => exact ⟨rfl, fun _ => rfl⟩
    | ok t =>
      obtain ⟨b, hfile, -⟩ := FileTree.remove_ok hremove
      rw [hfree] at hfile
      cases hfile
  | @writes t b hwrite =>
    obtain ⟨k, hlocate, hfile, -, hothers⟩ := FileTree.write_ok hwrite
    have hplace := FileTree.locate_place hlocate
    rw [FileTree.remove_of_located hlocate hfile]
    refine ⟨rfl, fun l => ?_⟩
    by_cases hl : l = k
    · rw [hl, hplace, hfree]
      exact FileTree.get?_erase_self t
        (hplace ▸ FileTree.ne_nil_of_get? (FileTree.ne_directory_of_file hfile))
    · exact (FileTree.get?_erase_of_ne t hl).trans (hothers l hl)

end Disk

namespace World

variable {σ : Type}

/-- A command changes the disk as its program does, if that is started at all. -/
theorem disk_run (m : Machine σ) (c : CommandLine) (args : List String) (w : World σ) :
    (w.run m c args).2.disk = w.disk ∨
      ∃ l, (w.run m c args).2.disk = (m.launch (c.withArgs args) l w.disk w.state).2.1 := by
  have hspawn := disk_spawn m (c.withArgs args) c.workDir w
  unfold run runChecked
  split_ifs
  · exact .inl rfl
  · split
    · next hreply => rwa [hreply] at hspawn
    · next hreply =>
      rw [hreply] at hspawn
      split_ifs <;> exact hspawn

end World

namespace StorageClient

variable {σ : Type} (m : Machine σ) (c : StorageClient) (file : String)
  (description : Option String) (depth : Nat) (withMetrics : Bool) (w : World σ)

/-- Where the next scratch file stands. -/
def scratchPlace : Location := Path.place w.disk.cwd (c.scratchPath w.disk)

/-- The command that writes a count to the next scratch file. -/
def askedArgs : List String :=
  countArgs file description depth (c.scratchPath w.disk) withMetrics

/-- The command has been run, and nothing was done with its file. -/
def asked : Except CommandError Unit × World σ :=
  c.run m (c.askedArgs file description depth withMetrics w) { w with disk := w.disk.spend }

theorem disk_asked : (c.asked m file description depth withMetrics w).2.disk = w.disk.spend ∨
    ∃ l, (c.asked m file description depth withMetrics w).2.disk = (m.launch
      (c.cli.withArgs (c.askedArgs file description depth withMetrics w)) l w.disk.spend
      w.state).2.1 := by
  have hrun := World.disk_run m c.cli (c.askedArgs file description depth withMetrics w)
    { w with disk := w.disk.spend }
  unfold asked StorageClient.run
  split
  · next hreply => rwa [hreply] at hrun
  · next hreply => rwa [hreply] at hrun

/-- What is done once the command has been run. -/
theorem downloadCount_asked :
    match c.asked m file description depth withMetrics w with
    | (.error e, v) =>
      c.downloadCount m file description depth withMetrics w = (.error e, v)
    | (.ok (), v) => ∃ r, c.downloadCount m file description depth withMetrics w =
        (r, { v with disk := v.disk.discard (c.scratchPath w.disk) }) := by
  unfold downloadCount asked askedArgs
  dsimp only
  rcases c.run m (countArgs file description depth (c.scratchPath w.disk) withMetrics)
    { w with disk := w.disk.spend } with ⟨e | u, v⟩
  · rfl
  · dsimp only
    split
    · exact ⟨_, rfl⟩
    · split <;> exact ⟨_, rfl⟩

variable {w}

/-- A scratch file is gone after a count was asked for if and only if the program ended well or left
none; if it did not end well, that is the error that is given. If the program touches no other file,
then whatever it does and however it ends, all other files are as they were. -/
theorem scratch_gone_iff (hfree : w.disk.tree.get? (c.scratchPlace w) = none)
    (htouches : ∀ l, w.disk.spend.Touches (c.scratchPath w.disk) (m.launch
      (c.cli.withArgs (c.askedArgs file description depth withMetrics w)) l w.disk.spend
      w.state).2.1) :
    ∃ r v, c.downloadCount m file description depth withMetrics w = (r, v) ∧
      (v.disk.tree.get? (c.scratchPlace w) = none ↔
        (c.asked m file description depth withMetrics w).1 = .ok () ∨
          (c.asked m file description depth withMetrics w).2.disk.tree.get?
            (c.scratchPlace w) = none) ∧
      (∀ e, (c.asked m file description depth withMetrics w).1 = .error e → r = .error e) ∧
      v.disk.cwd = w.disk.cwd ∧
      ∀ l, l ≠ c.scratchPlace w → v.disk.tree.get? l = w.disk.tree.get? l := by
  have hasked : w.disk.spend.Touches (c.scratchPath w.disk)
      (c.asked m file description depth withMetrics w).2.disk := by
    rcases disk_asked m c file description depth withMetrics w with hdisk | ⟨l, hdisk⟩
    · rw [hdisk]
      exact .spares
    · rw [hdisk]
      exact htouches l
  have hends := downloadCount_asked m c file description depth withMetrics w
  generalize c.asked m file description depth withMetrics w = reply at hasked hends ⊢
  obtain ⟨e | u, v⟩ := reply
  · refine ⟨.error e, v, hends, by simp, fun e' he => ?_, hasked.cwd, fun l hl => hasked.get? hl⟩
    cases he
    rfl
  · obtain ⟨r, hr⟩ := hends
    obtain ⟨hcwd, hall⟩ := hasked.discard hfree
    refine ⟨r, _, hr, ⟨fun _ => .inl rfl, fun _ => (hall _).trans hfree⟩, fun e' he => ?_, hcwd,
      fun l _ => hall l⟩
    cases he

/-- A program that writes an eight to the file it is given, and then says that it failed. -/
def lateFailure : Machine Unit where
  launch argv _ d s :=
    match d.tree.write d.cwd ((argv.dropWhile (· ≠ "-o"))[1]?.getD "") ⟨#[56]⟩ with
    | .ok t => (.ok ⟨some 2, ByteArray.empty, ByteArray.empty⟩, { d with tree := t }, s)
    | .error e => (.error e, d, s)
  launchCost _ _ _ _ := seconds 1
  fetch _ s := (.failed "", s)
  fetchCost _ _ := seconds 1

theorem touches_lateFailure {argv : List String} {p : String} (d : Disk) (l : Location)
    (h : (argv.dropWhile (· ≠ "-o"))[1]?.getD "" = p) :
    d.Touches p (lateFailure.launch argv l d ()).2.1 := by
  subst h
  unfold lateFailure
  dsimp only
  split
  · next hwrite => exact .writes hwrite
  · exact .spares

def bareClient : StorageClient := ⟨⟨["storage-cli"], none⟩, "", ⟨"", "", "", 1⟩⟩

def bareWorld : World Unit := ⟨(), ⟨.empty, [], fun _ => none, 0⟩, .start, []⟩

/-- The file of a program that failed late stays. -/
theorem late_failure_leaves_scratch :
    bareWorld.disk.tree.get? (bareClient.scratchPlace bareWorld) = none ∧
    (∀ l, bareWorld.disk.spend.Touches (bareClient.scratchPath bareWorld.disk)
      (lateFailure.launch (bareClient.cli.withArgs
        (bareClient.askedArgs "F" none 1 false bareWorld)) l bareWorld.disk.spend ()).2.1) ∧
    ∃ e v, bareClient.downloadCount lateFailure "F" none 1 false bareWorld = (.error e, v) ∧
      e.kind = "exit_status" ∧ v.disk.tree.get? (bareClient.scratchPlace bareWorld) ≠ none := by
  have hfree : bareWorld.disk.tree.get? (bareClient.scratchPlace bareWorld) = none := by
    rw [← Option.isNone_iff_eq_none]
    decide +kernel
  have hout : ((bareClient.cli.withArgs
      (bareClient.askedArgs "F" none 1 false bareWorld)).dropWhile (· ≠ "-o"))[1]?.getD "" =
        bareClient.scratchPath bareWorld.disk := by
    decide +kernel
  have htouches := fun l => touches_lateFailure bareWorld.disk.spend l hout
  have hkind : (bareClient.asked lateFailure "F" none 1 false bareWorld).1.mapError
      CommandError.kind = .error "exit_status" := by
    decide +kernel
  have hleft : (bareClient.asked lateFailure "F" none 1 false bareWorld).2.disk.tree.get?
      (bareClient.scratchPlace bareWorld) ≠ none := by
    rw [← Option.isSome_iff_ne_none]
    decide +kernel
  obtain ⟨r, v, hcount, hgone, hreply, -⟩ := scratch_gone_iff lateFailure bareClient "F" none 1
    false hfree htouches
  cases hasked : (bareClient.asked lateFailure "F" none 1 false bareWorld).1 with
  | ok u =>
    rw [hasked] at hkind
    cases hkind
  | error e =>
    rw [hasked] at hkind hgone
    obtain rfl := hreply e hasked
    refine ⟨hfree, htouches, e, v, hcount, Except.error.inj hkind, fun hnone => ?_⟩
    exact (hgone.1 hnone).elim (fun h => by cases h) hleft

end StorageClient

end FaultSweep
