import Mathlib.Data.List.Induction
import FaultSweep.Proofs.Files.Untouched

/-!
# Replacing a file is all or nothing

Until the new file is renamed, all that happens is that missing directories above the path are made
and that a file beside it is written; and if a step fails, that file is removed again. Directories
that are made leave the file at the place of the path alone, but they can open a way to it: a path
that goes through a missing directory and back is readable once the directory is there.
-/

namespace FaultSweep

open Utf8 (Bytes)

namespace FileTree

variable {t t' : FileTree} {cwd l k : Location} {p : String} {b : Bytes}

/-! ### Trees in which paths can be followed -/

/-- Whatever stands anywhere stands in a directory. -/
def Rooted (t : FileTree) : Prop :=
  ∀ l name, t.get? (l ++ [name]) ≠ none → t.get? l = some .directory

theorem Rooted.directory_above (h : t.Rooted) {names : List String} (hnames : names ≠ [])
    (hk : t.get? (l ++ names) ≠ none) : t.get? l = some .directory := by
  induction names using List.reverseRecOn with
  | nil => exact absurd rfl hnames
  | append_singleton names name ih =>
    have hfront : t.get? (l ++ names) = some .directory := by
      rw [← List.append_assoc] at hk
      exact h _ name hk
    by_cases hnil : names = []
    · rwa [hnil, List.append_nil] at hfront
    · exact ih hnil (by simp [hfront])

/-- Without a step back, a path only leads further down. -/
theorem prefix_foldl_step {ss : List (List Char)} (h : ['.', '.'] ∉ ss) (l : Location) :
    l <+: ss.foldl Path.step l := by
  induction ss generalizing l with
  | nil => exact List.prefix_rfl
  | cons s ss ih =>
    obtain ⟨hs, hss⟩ := not_or.1 (mt List.mem_cons.2 h)
    refine List.IsPrefix.trans ?_ (ih hss _)
    unfold Path.step
    rw [if_neg (Ne.symm hs)]
    split_ifs
    · exact List.prefix_rfl
    · exact List.prefix_append _ _

/-- One segment is passed alike in two trees that have a directory there. -/
theorem walk_cons_congr {s : List Char} {names : List String} (hl : t.get? l = some .directory)
    (h : t'.walk l (String.ofList s :: names) = .ok k) :
    t.walk l (String.ofList s :: names) = t.walk (Path.step l s) names := by
  obtain ⟨hl', honward⟩ := walk_cons_ok h
  have halone : t.walk l [String.ofList s] = t'.walk l [String.ofList s] := by
    simp only [walk, hl, hl']
  have hone : t.walk l [String.ofList s] = .ok (Path.step l s) := by
    rw [halone, honward, walk]
  exact (walk_cons_ok hone).2 names

/-- A way to a file that only leads down is open wherever the file stands. -/
theorem Rooted.walk (h : t.Rooted) {ss : List (List Char)} (hdown : ['.', '.'] ∉ ss)
    (hwalk : t'.walk l (ss.map String.ofList) = .ok k) (hfile' : t'.get? k = some (.file b))
    (hfile : t.get? k = some (.file b)) : t.walk l (ss.map String.ofList) = .ok k := by
  induction ss generalizing l with
  | nil => exact hwalk
  | cons s ss ih =>
    obtain ⟨hs, hss⟩ := not_or.1 (mt List.mem_cons.2 hdown)
    rw [List.map_cons] at hwalk ⊢
    obtain ⟨hl', honward⟩ := walk_cons_ok hwalk
    have hplace : k = (s :: ss).foldl Path.step l := by
      have hends := hwalk
      rw [← List.map_cons, ← List.append_nil (List.map _ _)] at hends
      exact (Except.ok.inj (walk_append_ok hends).2).symm
    obtain ⟨names, hnames⟩ := prefix_foldl_step hdown l
    rw [← hplace] at hnames
    have hbelow : names ≠ [] := by
      rintro rfl
      rw [List.append_nil] at hnames
      rw [hnames, hfile'] at hl'
      cases hl'
    have hl : t.get? l = some .directory := h.directory_above hbelow (by simp [hnames, hfile])
    rw [walk_cons_congr hl hwalk]
    rw [honward] at hwalk
    exact ih hss hwalk

theorem Rooted.read (h : t.Rooted) (hdown : ['.', '.'] ∉ Path.segments p.toList)
    (hread : t'.read cwd p = .ok b) (hfile : t.file? (Path.place cwd p) = some b) :
    t.read cwd p = .ok b := by
  obtain ⟨k, hlocate, hfile'⟩ := read_ok_iff.1 hread
  rw [← locate_place hlocate, file?_eq_some] at hfile
  obtain ⟨hnul, hempty, hshort, hwalk⟩ := locate_ok_iff.1 hlocate
  exact read_ok_iff.2 ⟨k, locate_ok_iff.2 ⟨hnul, hempty, hshort, h.walk hdown hwalk hfile' hfile⟩,
    hfile⟩

/-- A file that was moved is gone from where it was, and nothing else has changed but its target. -/
theorem get?_of_rename {target : String} (h : t.rename cwd p target = .ok t')
    (hne : Path.place cwd p ≠ Path.place cwd target) (hl : l ≠ Path.place cwd target) :
    t'.get? l = if l = Path.place cwd p then none else t.get? l := by
  obtain ⟨i, k, c, hi, hk, hfile, -, rfl⟩ := rename_ok h
  rw [← locate_place hk] at hl hne
  rw [← locate_place hi] at hne ⊢
  rw [get?_put_of_ne _ _ hl]
  split_ifs with hsource
  · subst hsource
    exact get?_erase_self t (ne_nil_of_get? (ne_directory_of_file hfile))
  · exact get?_erase_of_ne t hsource

end FileTree

namespace Disk

variable {d d' d₁ : Disk} {p temp : String} {b c : Bytes} {l : Location} {r : Except IoError Unit}

/-! ### The steps of a replacement -/

abbrev TreeStep := ReplaceStep × (FileTree → Except IoError FileTree)

/-- Takes one step after another, until one fails. -/
def carryOut (d : Disk) : List TreeStep → Except IoError Unit × Disk
  | [] => (.ok (), d)
  | (step, act) :: rest => match d.attempt step act with
    | (.error e, d) => (.error e, d)
    | (.ok (), d) => d.carryOut rest

/-- A new file is written. -/
def writing (cwd : Location) (temp : String) (b : Bytes) : List TreeStep :=
  [(.create, fun t => (t.create cwd temp).map (·.2)), (.write, (·.write cwd temp b)), (.sync, .ok)]

/-- The new file takes the place of the old one. -/
def moving (cwd : Location) (temp p : String) : TreeStep := (.rename, (·.rename cwd temp p))

/-- A step fails and does nothing, or changes the tree. -/
theorem attempt_cases (d : Disk) (step : ReplaceStep)
    (act : FileTree → Except IoError FileTree) :
    (∃ e, d.attempt step act = (.error e, d)) ∨
      ∃ t, act d.tree = .ok t ∧ d.attempt step act = (.ok (), { d with tree := t }) := by
  unfold attempt
  split
  · exact .inl ⟨_, rfl⟩
  · split
    · exact .inl ⟨_, rfl⟩
    · next t ht => exact .inr ⟨t, ht, rfl⟩

theorem carryOut_cons (d : Disk) (s : TreeStep) (rest : List TreeStep) :
    d.carryOut (s :: rest) = match d.attempt s.1 s.2 with
      | (.error e, d) => (.error e, d)
      | (.ok (), d) => d.carryOut rest := rfl

theorem carryOut_append (d : Disk) (xs ys : List TreeStep) :
    d.carryOut (xs ++ ys) = match d.carryOut xs with
      | (.error e, d) => (.error e, d)
      | (.ok (), d) => d.carryOut ys := by
  induction xs generalizing d with
  | nil => rfl
  | cons x xs ih =>
    rw [List.cons_append, carryOut_cons, carryOut_cons]
    split
    · rfl
    · next d₁ _ => exact ih d₁

theorem carryOut_singleton (d : Disk) (s : TreeStep) : d.carryOut [s] = d.attempt s.1 s.2 := by
  rcases attempt_cases d s.1 s.2 with ⟨e, h⟩ | ⟨t, -, h⟩ <;> simp [carryOut, h]

theorem writeAndRename_eq (d : Disk) (temp p : String) (b : Bytes) :
    d.writeAndRename temp p b =
      d.carryOut (writing d.cwd temp b ++ [moving d.cwd temp p]) := by
  have hlast : ∀ d₁ : Disk, d₁.carryOut [moving d.cwd temp p] =
      d₁.attempt .rename (·.rename d.cwd temp p) := fun d₁ => carryOut_singleton d₁ _
  simp only [writeAndRename, writing, List.cons_append, List.nil_append, carryOut_cons]
  rcases attempt_cases d .create fun t => (t.create d.cwd temp).map (·.2) with
    ⟨e, h⟩ | ⟨t₁, -, h⟩
  · rw [h]
  · rw [h]
    dsimp only
    rcases attempt_cases { d with tree := t₁ } .write (·.write d.cwd temp b) with
      ⟨e, h⟩ | ⟨t₂, -, h⟩
    · rw [h]
    · rw [h]
      dsimp only
      rcases attempt_cases { d with tree := t₂ } .sync .ok with ⟨e, h⟩ | ⟨t₃, -, h⟩
      · rw [h]
      · rw [h]
        exact (hlast _).symm

theorem replace_eq (d : Disk) (p : String) (b : Bytes) :
    d.replace p b = match d.makeParents p with
      | (.error e, d) => (.error e, d)
      | (.ok (), d) =>
        match d.spend.carryOut (writing d.cwd (d.temporary p) b ++
            [moving d.cwd (d.temporary p) p]) with
        | (.error e, d') => (.error e, d'.discard (d.temporary p))
        | (.ok (), d') => (.ok (), d') := by
  unfold replace
  simp only [writeAndRename_eq]
  rfl

/-- The disk if a replacement is cut off after some of the steps before the new file is moved. -/
def underway (d : Disk) (p : String) (b : Bytes) (n : Nat) : Disk :=
  match d.makeParents p with
  | (.error _, d) => d
  | (.ok (), d) => (d.spend.carryOut ((writing d.cwd (d.temporary p) b).take n)).2

/-- What holds of a disk holds after some steps, if each keeps it. -/
theorem carryOut_invariant {I : Disk → Prop} {steps : List TreeStep} (h : I d)
    (hstep : ∀ s ∈ steps, ∀ u t, I u → s.2 u.tree = .ok t → I { u with tree := t }) :
    I (d.carryOut steps).2 := by
  induction steps generalizing d with
  | nil => exact h
  | cons s rest ih =>
    obtain ⟨hfirst, hrest⟩ := List.forall_mem_cons.1 hstep
    rw [carryOut_cons]
    rcases attempt_cases d s.1 s.2 with ⟨e, he⟩ | ⟨t, ht, hok⟩
    · rw [he]
      exact h
    · rw [hok]
      exact ih (hfirst d t h ht) hrest

/-! ### What a replacement leaves behind -/

/-- A disk on which a new file was begun beside a path, or not yet, and nothing else was done but
that directories above the path were made. -/
structure Beside (p : String) (d d' : Disk) : Prop where
  cwd : d'.cwd = d.cwd
  keeps : d.tree.Keeps d'.tree
  others : ∀ l, l ≠ d.asidePlace p → SameAt p d d' l
  aside : SameAt p d d' (d.asidePlace p) ∨
    d'.tree.locate d.cwd (d.temporary p) = .ok (d.asidePlace p) ∧
      ∃ c, d'.tree.get? (d.asidePlace p) = some (.file c)

theorem beside_makeParents (d : Disk) (p : String) : Beside p d (d.makeParents p).2 where
  cwd := (alters_makeParents d p).cwd
  keeps := (alters_makeParents d p).tree.directories
  others l _ := sameAt_makeParents d p l
  aside := .inl (sameAt_makeParents d p _)

/-- The new file is written where its name leads. -/
theorem Beside.put {t : FileTree} (h : Beside p d d₁) (hkeeps : d₁.tree.Keeps t)
    (hothers : ∀ l, l ≠ d.asidePlace p → t.get? l = d₁.tree.get? l)
    (hlocate : t.locate d.cwd (d.temporary p) = .ok (d.asidePlace p))
    (hfile : t.get? (d.asidePlace p) = some (.file c)) : Beside p d { d₁ with tree := t } where
  cwd := h.cwd
  keeps := h.keeps.trans hkeeps
  others l hl := (h.others l hl).trans (.inl (hothers l hl))
  aside := .inr ⟨hlocate, c, hfile⟩

theorem Beside.create {k : Location} {t : FileTree} (h : Beside p d d₁)
    (hcreate : d₁.tree.create d.cwd (d.temporary p) = .ok (k, t)) :
    Beside p d { d₁ with tree := t } := by
  obtain ⟨hlocate, hfile, rfl⟩ := FileTree.create_ok hcreate
  obtain rfl : k = d.asidePlace p := FileTree.locate_place hlocate
  have hkeeps := FileTree.keeps_put (.file ByteArray.empty) hfile
  exact h.put hkeeps (fun l hl => FileTree.get?_put_of_ne _ _ hl) (hkeeps.locate hlocate)
    (FileTree.get?_put_self _ _ (FileTree.ne_nil_of_get? hfile))

theorem Beside.write {t : FileTree} (h : Beside p d d₁)
    (hwrite : d₁.tree.write d.cwd (d.temporary p) b = .ok t) :
    Beside p d { d₁ with tree := t } := by
  obtain ⟨k, hlocate, hfile, hkeeps, hothers⟩ := FileTree.write_ok hwrite
  obtain rfl : k = d.asidePlace p := FileTree.locate_place hlocate
  exact h.put hkeeps hothers hlocate hfile

/-- However far it comes, the writing of the new file does nothing else. -/
theorem Beside.writing (h : Beside p d d₁) (b : Bytes) {steps : List TreeStep}
    (hsteps : ∀ s ∈ steps, s ∈ Disk.writing d.cwd (d.temporary p) b) :
    Beside p d (d₁.carryOut steps).2 := by
  refine carryOut_invariant h fun s hs u t hu ht => ?_
  have hmem := hsteps s hs
  simp only [Disk.writing, List.mem_cons, List.not_mem_nil, or_false] at hmem
  rcases hmem with rfl | rfl | rfl
  · cases hcreate : u.tree.create d.cwd (d.temporary p) with
    | error e =>
      simp only [hcreate] at ht
      cases ht
    | ok made =>
      simp only [hcreate] at ht
      cases ht
      exact hu.create hcreate
  · exact hu.write ht
  · cases ht
    exact hu

theorem Beside.alters (h : Beside p d d') : d.Alters [d.asidePlace p] d' :=
  ⟨h.cwd, h.keeps.alters fun l hl => h.others l (by simpa using hl)⟩

/-- Once the new file is removed, only directories are left that were made. -/
theorem Beside.discard (h : Beside p d d₁)
    (hl : l = d.asidePlace p → d.tree.get? l = none) :
    SameAt p d (d₁.discard (d.temporary p)) l := by
  unfold Disk.discard
  rw [h.cwd]
  cases hremove : d₁.tree.remove d.cwd (d.temporary p) with
  | error e =>
    by_cases haside : l = d.asidePlace p
    · subst haside
      refine h.aside.resolve_right ?_
      rintro ⟨hlocate, c, hfile⟩
      cases (FileTree.remove_of_located hlocate hfile).symm.trans hremove
    · exact h.others l haside
  | ok t =>
    obtain ⟨c, hfile, rfl⟩ := FileTree.remove_ok hremove
    by_cases haside : l = d.asidePlace p
    · refine .inl ?_
      rw [hl haside, haside]
      exact FileTree.get?_erase_self _ (FileTree.ne_nil_of_get?
        (FileTree.ne_directory_of_file hfile))
    · exact (h.others l haside).trans (.inl (FileTree.get?_erase_of_ne _ haside))

/-- Once the new file is moved, only its target is left changed, besides. -/
theorem Beside.move {t : FileTree} (h : Beside p d d₁)
    (hmove : d₁.tree.rename d.cwd (d.temporary p) p = .ok t)
    (hl : l = d.asidePlace p → d.tree.get? l = none) (htarget : l ≠ Path.place d.cwd p) :
    SameAt p d { d₁ with tree := t } l := by
  have hget := FileTree.get?_of_rename hmove (asidePlace_ne d p) htarget
  by_cases haside : l = d.asidePlace p
  · refine .inl ?_
    rw [hl haside]
    exact hget.trans (if_pos haside)
  · exact (h.others l haside).trans (.inl (hget.trans (if_neg haside)))

/-- If the last of some steps is not done, then it does nothing. -/
theorem carryOut_concat (d : Disk) (steps : List TreeStep) (s : TreeStep) :
    (∃ e, d.carryOut (steps ++ [s]) = (.error e, (d.carryOut steps).2)) ∨
      ∃ t, s.2 (d.carryOut steps).2.tree = .ok t ∧
        d.carryOut (steps ++ [s]) = (.ok (), { (d.carryOut steps).2 with tree := t }) := by
  rw [carryOut_append]
  rcases d.carryOut steps with ⟨e | u, d₁⟩
  · exact .inl ⟨e, rfl⟩
  · dsimp only
    rw [carryOut_singleton]
    exact attempt_cases d₁ s.1 s.2

/-- Where the directories above a path could be made, the new file is begun beside it. -/
theorem beside_spend (hmade : d.makeParents p = (.ok (), d₁)) :
    d₁.temporary p = d.temporary p ∧ d₁.cwd = d.cwd ∧ Beside p d d₁.spend := by
  have htemp := temporary_makeParents d p
  have hparents := beside_makeParents d p
  rw [hmade] at htemp hparents
  exact ⟨htemp, hparents.cwd, hparents.cwd, hparents.keeps, hparents.others, hparents.aside⟩

/-- How a replacement ends: no file is begun for want of a directory, or one is begun and removed
again, or one is moved to where the old one was. -/
inductive Replaced (p : String) (d : Disk) : Except IoError Unit × Disk → Prop
  | unbegun (e : IoError) : Replaced p d (.error e, (d.makeParents p).2)
  | undone (e : IoError) {u : Disk} (h : Beside p d u) :
      Replaced p d (.error e, u.discard (d.temporary p))
  | done {u : Disk} {t : FileTree} (h : Beside p d u)
      (hmove : u.tree.rename d.cwd (d.temporary p) p = .ok t) :
      Replaced p d (.ok (), { u with tree := t })

theorem replace_replaced (d : Disk) (p : String) (b : Bytes) : Replaced p d (d.replace p b) := by
  rw [replace_eq]
  rcases hmade : d.makeParents p with ⟨e | u, d₁⟩
  · have hunbegun := Replaced.unbegun (p := p) (d := d) e
    rwa [hmade] at hunbegun
  · obtain ⟨htemp, hcwd, hspent⟩ := beside_spend hmade
    dsimp only
    rw [htemp, hcwd]
    have hwritten := hspent.writing b (fun _ hs => hs)
    rcases carryOut_concat d₁.spend (writing d.cwd (d.temporary p) b)
      (moving d.cwd (d.temporary p) p) with ⟨e, he⟩ | ⟨t, ht, hok⟩
    · rw [he]
      exact .undone e hwritten
    · rw [hok]
      exact .done hwritten ht

/-- A replacement touches its target and a new file beside it, and only the latter if it fails. -/
theorem alters_replace (h : d.replace p b = (r, d')) :
    d.Alters [d.asidePlace p, Path.place d.cwd p] d' ∧
      (r ≠ .ok () → d.Alters [d.asidePlace p] d') := by
  have hsub : [d.asidePlace p] ⊆ [d.asidePlace p, Path.place d.cwd p] := by simp
  have hends := replace_replaced d p b
  rw [h] at hends
  cases hends with
  | unbegun e =>
    have halters := (beside_makeParents d p).alters
    exact ⟨halters.mono hsub, fun _ => halters⟩
  | @undone e u hbeside =>
    have hgone := alters_discard u (d.temporary p)
    rw [hbeside.cwd] at hgone
    have halters := hbeside.alters.trans hgone
    exact ⟨halters.mono hsub, fun _ => halters⟩
  | @done u t hbeside hmove =>
    have hmoved : u.Alters [d.asidePlace p, Path.place d.cwd p] { u with tree := t } :=
      ⟨rfl, FileTree.alters_rename hmove⟩
    exact ⟨(hbeside.alters.mono hsub).trans hmoved, fun hr => absurd rfl hr⟩

theorem beside_underway (d : Disk) (p : String) (b : Bytes) (n : Nat) :
    Beside p d (d.underway p b n) := by
  have hparents := beside_makeParents d p
  unfold underway
  rcases hmade : d.makeParents p with ⟨e | u, d₁⟩
  · rwa [hmade] at hparents
  · obtain ⟨htemp, hcwd, hspent⟩ := beside_spend hmade
    dsimp only
    rw [htemp, hcwd]
    exact hspent.writing b fun _ => List.mem_of_mem_take

/-- A path has the content it had. The file at its place is the one that was there; what was read
before is read, and what is read was there before, and was read unless the path goes back. -/
structure Intact (p : String) (d d' : Disk) : Prop where
  cwd : d'.cwd = d.cwd
  file : d'.fileAt p = d.fileAt p
  read : ∀ c, d.read p = .ok c → d'.read p = .ok c
  found : ∀ c, d'.read p = .ok c → d.fileAt p = some c
  down : d.tree.Rooted → ['.', '.'] ∉ Path.segments p.toList →
    ∀ c, d'.read p = .ok c → d.read p = .ok c

theorem intact_of_alters (h : d.Alters [d.asidePlace p] d') : Intact p d d' := by
  have hmem : Path.place d.cwd p ∉ [d.asidePlace p] := by simpa using (asidePlace_ne d p).symm
  have hfile := h.fileAt hmem
  have hfound : ∀ c, d'.read p = .ok c → d.fileAt p = some c := by
    intro c hc
    obtain ⟨l, hlocate, hl⟩ := FileTree.read_ok_iff.1 hc
    rw [← hfile, fileAt, ← FileTree.locate_place hlocate]
    exact FileTree.file?_eq_some.2 hl
  refine ⟨h.cwd, hfile, fun c => h.read hmem, hfound, fun hrooted hdown c hc => ?_⟩
  have hthere := hfound c hc
  rw [Disk.read, h.cwd] at hc
  exact hrooted.read hdown hc hthere

theorem intact_of_replace_error {e : IoError} (h : d.replace p b = (.error e, d')) :
    Intact p d d' :=
  intact_of_alters ((alters_replace h).2 fun hr => by cases hr)

/-- Replacing a file is all or nothing. Either the path reads as the new bytes; or there is an error
and the path has the content it had, which it has also whenever the replacement is cut off before
the new file is moved. In both cases everything else is as it was but for directories that were
missing above the path; and so is the place of the new file, if nothing stood there before. -/
theorem replace_all_or_nothing (d : Disk) (p : String) (b : Bytes) :
    (match d.replace p b with
    | (.ok (), d') => d'.read p = .ok b ∧
      ∀ l, l ≠ Path.place d.cwd p → (l = d.asidePlace p → d.tree.get? l = none) → SameAt p d d' l
    | (.error _, d') => Intact p d d' ∧
      ∀ l, (l = d.asidePlace p → d.tree.get? l = none) → SameAt p d d' l) ∧
    ∀ n, Intact p d (d.underway p b n) := by
  refine ⟨?_, fun n => intact_of_alters (beside_underway d p b n).alters⟩
  have hends := replace_replaced d p b
  cases hreplace : d.replace p b with
  | mk r d' =>
  rw [hreplace] at hends
  cases hends with
  | unbegun e => exact ⟨intact_of_replace_error hreplace, fun l _ => sameAt_makeParents d p l⟩
  | undone e h => exact ⟨intact_of_replace_error hreplace, fun l hl => h.discard hl⟩
  | done h hmove => exact ⟨read_of_replace hreplace, fun l htarget hl => h.move hmove hl htarget⟩

/-- A disk with one file, and no space for the bytes of another. -/
def fullWithFile : Disk :=
  ⟨⟨[(["n"], .file ⟨#[1]⟩)]⟩, [], fun step => if step = .sync then some (.other "no space left")
    else none, 0⟩

/-- The way through a missing directory and back is open after a replacement that failed. -/
theorem failed_replacement_opens_path : ∃ d',
    fullWithFile.replace "x/../n" ⟨#[2]⟩ = (.error (.other "no space left"), d') ∧
      fullWithFile.read "x/../n" = .error (.os .notFound) ∧ d'.read "x/../n" = .ok ⟨#[1]⟩ := by
  have hfails : (fullWithFile.replace "x/../n" ⟨#[2]⟩).1 = .error (.other "no space left") := by
    decide +kernel
  have hbefore : fullWithFile.read "x/../n" = .error (.os .notFound) := by decide +kernel
  have hafter : (fullWithFile.replace "x/../n" ⟨#[2]⟩).2.read "x/../n" = .ok ⟨#[1]⟩ := by
    decide +kernel
  exact ⟨_, Prod.ext hfails rfl, hbefore, hafter⟩

end Disk

end FaultSweep
