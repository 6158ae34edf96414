import FaultSweep.Ledger.Store

/-!
# Files that were replaced hold what was written

Files come and go without a directory being changed, so a path that leads to a place goes on leading
there. So a file that was replaced through a second one is found where it was, with the new bytes.
-/

namespace FaultSweep

open Utf8 (Bytes)

namespace FileTree

/-- The directories of `t` are directories of `t'`. -/
def Keeps (t t' : FileTree) : Prop :=
  ∀ l, t.get? l = some .directory → t'.get? l = some .directory

theorem Keeps.trans {t u v : FileTree} (h : t.Keeps u) (h' : u.Keeps v) : t.Keeps v := by
  intro l hl
  exact h' l (h l hl)

theorem keeps_put {t : FileTree} {l : Location} (e : FileEntry) (h : t.get? l ≠ some .directory) :
    t.Keeps (t.put l e) := by
  intro k hk
  have hne : k ≠ l := by
    rintro rfl
    exact h hk
  rw [get?_put_of_ne t e hne]
  exact hk

theorem keeps_erase {t : FileTree} {l : Location} (h : t.get? l ≠ some .directory) :
    t.Keeps (t.erase l) := by
  intro k hk
  have hne : k ≠ l := by
    rintro rfl
    exact h hk
  rw [get?_erase_of_ne t hne]
  exact hk

theorem ne_directory_of_file {t : FileTree} {l : Location} {b : Bytes}
    (h : t.get? l = some (.file b)) : t.get? l ≠ some .directory := by
  rw [h]
  intro hd
  cases hd

theorem ne_directory_of_none {t : FileTree} {l : Location} (h : t.get? l = none) :
    t.get? l ≠ some .directory := by
  rw [h]
  intro hd
  cases hd

theorem ne_nil_of_get? {t : FileTree} {l : Location} (h : t.get? l ≠ some .directory) : l ≠ [] := by
  rintro rfl
  exact h rfl

/-- Where no directory was, there is none after a file is gone. -/
theorem get?_erase_ne_directory {t : FileTree} {k l : Location} (hl : t.get? l ≠ some .directory)
    (hk : t.get? k ≠ some .directory) : (t.erase l).get? k ≠ some .directory := by
  by_cases heq : k = l
  · subst heq
    exact ne_directory_of_none (get?_erase_self t (ne_nil_of_get? hl))
  · rwa [get?_erase_of_ne t heq]

theorem Keeps.walk {t t' : FileTree} (h : t.Keeps t') {l k : Location} {names : List String}
    (hw : t.walk l names = .ok k) : t'.walk l names = .ok k := by
  induction names generalizing l with
  | nil => exact hw
  | cons name rest ih =>
    rw [FileTree.walk] at hw ⊢
    cases hl : t.get? l with
    | none =>
      rw [hl] at hw
      cases hw
    | some e =>
      cases e with
      | file b =>
        rw [hl] at hw
        cases hw
      | directory =>
        rw [hl] at hw
        rw [h l hl]
        dsimp only at hw ⊢
        split at hw
        · next hidle =>
          rw [if_pos hidle]
          exact ih hw
        · next hidle =>
          rw [if_neg hidle]
          split at hw
          · next hup =>
            rw [if_pos hup]
            exact ih hw
          · next hup =>
            rw [if_neg hup]
            split at hw
            · cases hw
            · next hlong =>
              rw [if_neg hlong]
              exact ih hw

theorem Keeps.locate {t t' : FileTree} (h : t.Keeps t') {cwd k : Location} {p : String}
    (hl : t.locate cwd p = .ok k) : t'.locate cwd p = .ok k := by
  unfold FileTree.locate at hl ⊢
  split at hl
  · cases hl
  · next hnul =>
    rw [if_neg hnul]
    split at hl
    · cases hl
    · next hempty =>
      rw [if_neg hempty]
      split at hl
      · cases hl
      · next hlong =>
        rw [if_neg hlong]
        split at hl
        · next l hwalk =>
          cases hl
          rw [h.walk hwalk]
        · cases hl

theorem create_ok {t t' : FileTree} {cwd l : Location} {p : String}
    (h : t.create cwd p = .ok (l, t')) :
    t.locate cwd p = .ok l ∧ t.get? l ≠ some .directory ∧ t' = t.put l (.file ByteArray.empty) := by
  unfold create at h
  split at h
  · cases h
  · next k hk =>
    split at h
    · cases h
    · next hfile =>
      cases h
      exact ⟨hk, hfile, rfl⟩

/-- What is written to a path is there, and nothing else has changed. -/
theorem write_ok {t t' : FileTree} {cwd : Location} {p : String} {b : Bytes}
    (h : t.write cwd p b = .ok t') :
    ∃ l, t'.locate cwd p = .ok l ∧ t'.get? l = some (.file b) ∧ t.Keeps t' ∧
      ∀ k, k ≠ l → t'.get? k = t.get? k := by
  unfold write at h
  split at h
  · cases h
  · next l u hcreate =>
    cases h
    obtain ⟨hl, hfile, rfl⟩ := create_ok hcreate
    have hne := ne_nil_of_get? hfile
    have hempty := ne_directory_of_file (get?_put_self t (.file ByteArray.empty) hne)
    have hkeeps := (keeps_put (.file ByteArray.empty) hfile).trans (keeps_put (.file b) hempty)
    refine ⟨l, hkeeps.locate hl, get?_put_self _ _ hne, hkeeps, fun k hk => ?_⟩
    rw [get?_put_of_ne _ _ hk, get?_put_of_ne _ _ hk]

/-- A file is moved over what is no directory. -/
theorem rename_ok {t t' : FileTree} {cwd : Location} {p target : String}
    (h : t.rename cwd p target = .ok t') :
    ∃ l k b, t.locate cwd p = .ok l ∧ t.locate cwd target = .ok k ∧
      t.get? l = some (.file b) ∧ t.get? k ≠ some .directory ∧
      t' = (t.erase l).put k (.file b) := by
  unfold rename at h
  split at h
  · cases h
  · cases h
  · next l k hl hk =>
    have htarget : t.get? k ≠ some .directory := by
      intro hd
      rw [hd] at h
      split at h <;> simp_all
    split at h
    · cases h
    · cases h
    · cases h
    · next b hb _ =>
      cases h
      exact ⟨l, k, b, hl, hk, hb, htarget, rfl⟩

/-- What was moved to a path is there. -/
theorem read_of_rename {t t' : FileTree} {cwd l : Location} {p target : String} {b : Bytes}
    (h : t.rename cwd p target = .ok t') (hl : t.locate cwd p = .ok l)
    (hb : t.get? l = some (.file b)) : t'.read cwd target = .ok b := by
  obtain ⟨l', k, b', hl', hk, hb', htarget, rfl⟩ := rename_ok h
  cases hl'.symm.trans hl
  cases hb'.symm.trans hb
  have hsource := ne_directory_of_file hb
  have hgone := get?_erase_ne_directory hsource htarget
  have hkeeps := (keeps_erase hsource).trans (keeps_put (.file b) hgone)
  rw [FileTree.read, hkeeps.locate hk]
  simp only [get?_put_self _ _ (ne_nil_of_get? htarget)]

end FileTree

namespace Disk

theorem attempt_ok {d d' : Disk} {step : ReplaceStep} {act : FileTree → Except IoError FileTree}
    (h : d.attempt step act = (.ok (), d')) :
    ∃ t, act d.tree = .ok t ∧ d' = { d with tree := t } := by
  unfold attempt at h
  split at h
  · cases h
  · split at h
    · cases h
    · next t ht =>
      cases h
      exact ⟨t, ht, rfl⟩

/-- A file that was written beside another and renamed over it has taken its place. -/
theorem read_of_writeAndRename {d d' : Disk} {temp p : String} {b : Bytes}
    (h : d.writeAndRename temp p b = (.ok (), d')) : d'.read p = .ok b := by
  unfold writeAndRename at h
  split at h
  · cases h
  · next d₁ hcreate =>
    split at h
    · cases h
    · next d₂ hwrite =>
      split at h
      · cases h
      · next d₃ hsync =>
        obtain ⟨t₁, -, rfl⟩ := attempt_ok hcreate
        obtain ⟨t₂, ht₂, rfl⟩ := attempt_ok hwrite
        obtain ⟨t₃, ht₃, rfl⟩ := attempt_ok hsync
        obtain ⟨t₄, ht₄, rfl⟩ := attempt_ok h
        cases ht₃
        obtain ⟨l, hl, hb, -⟩ := FileTree.write_ok ht₂
        exact FileTree.read_of_rename ht₄ hl hb

theorem read_of_replace {d d' : Disk} {p : String} {b : Bytes}
    (h : d.replace p b = (.ok (), d')) : d'.read p = .ok b := by
  unfold replace at h
  split at h
  · cases h
  · next d₁ _ =>
    dsimp only at h
    split at h
    · cases h
    · next d₂ hwrite =>
      cases h
      exact read_of_writeAndRename hwrite

end Disk

/-- What was stored is read until something else is. -/
def Backend.Keeps {W : Type} (b : Backend W) : Prop :=
  ∀ bytes w w', b.replace bytes w = (.ok (), w') → b.read w' = .ok (some bytes)

theorem MemoryFile.backend_keeps : MemoryFile.backend.Keeps := by
  intro bytes m m' h
  unfold backend at h
  dsimp only at h
  split at h
  · cases h
  · cases h
    rfl

theorem Disk.backend_read_of_ok {d : Disk} {path : String} {bytes : Bytes}
    (h : d.read path = .ok bytes) : (Disk.backend path).read d = .ok (some bytes) := by
  unfold backend
  dsimp only
  rw [h]

/-- What is stored is told by what is read. -/
theorem Disk.backend_read_congr {d d' : Disk} {path : String} (h : d'.read path = d.read path) :
    (Disk.backend path).read d' = (Disk.backend path).read d := by
  unfold backend
  dsimp only
  rw [h]

theorem Disk.backend_keeps (path : String) : (Disk.backend path).Keeps :=
  fun _ _ _ h => backend_read_of_ok (read_of_replace h)

end FaultSweep
