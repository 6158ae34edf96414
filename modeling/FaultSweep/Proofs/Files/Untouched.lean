import Mathlib.Logic.Relation
import FaultSweep.Proofs.Files.Places

/-!
# Files that are left alone

Making directories, moving a file and removing one change the files at a few places that can be
named, and all other files stay.
-/

namespace FaultSweep

open Utf8 (Bytes)

/-- A path above another. -/
def Path.IsAncestor (a p : String) : Prop := Relation.TransGen (fun x y => parent? x = some y) p a

namespace FileTree

variable {t t' u : FileTree} {cwd l : Location} {ks ks' : List Location} {p : String} {b : Bytes}
  {made : Location → Prop}

/-- The bytes of the file at a place, if a file is there. -/
def file? (t : FileTree) (l : Location) : Option Bytes :=
  match t.get? l with
  | some (.file b) => some b
  | _ => none

theorem file?_eq_some : t.file? l = some b ↔ t.get? l = some (.file b) := by
  unfold file?
  split <;> simp_all

theorem file?_of_get? (h : t'.get? l = t.get? l) : t'.file? l = t.file? l := by
  rw [file?, file?, h]

theorem read_ok_iff : t.read cwd p = .ok b ↔
    ∃ l, t.locate cwd p = .ok l ∧ t.get? l = some (.file b) := by
  unfold read
  cases t.locate cwd p with
  | error e => simp
  | ok l =>
    dsimp only
    split <;> simp_all

/-- All directories are kept, and all files but those at some places. -/
structure Alters (ks : List Location) (t t' : FileTree) : Prop where
  directories : t.Keeps t'
  files : ∀ l, l ∉ ks → t'.file? l = t.file? l

namespace Alters

theorem refl (ks : List Location) (t : FileTree) : t.Alters ks t := ⟨fun _ h => h, fun _ _ => rfl⟩

theorem mono (h : t.Alters ks t') (hks : ks ⊆ ks') : t.Alters ks' t' :=
  ⟨h.directories, fun l hl => h.files l fun hmem => hl (hks hmem)⟩

theorem trans (h : t.Alters ks t') (h' : t'.Alters ks u) : t.Alters ks u :=
  ⟨h.directories.trans h'.directories, fun l hl => (h'.files l hl).trans (h.files l hl)⟩

/-- A file is read as before, unless it is one of those that may have changed. -/
theorem read (h : t.Alters ks t') (hp : Path.place cwd p ∉ ks) (hread : t.read cwd p = .ok b) :
    t'.read cwd p = .ok b := by
  obtain ⟨l, hlocate, hfile⟩ := read_ok_iff.1 hread
  refine read_ok_iff.2 ⟨l, h.directories.locate hlocate, ?_⟩
  rw [locate_place hlocate] at hfile ⊢
  rw [← file?_eq_some, h.files _ hp, file?_eq_some]
  exact hfile

end Alters

/-- What stands at a place stood there before, or is a directory that was made where nothing was. -/
def Grown (made : Location → Prop) (t t' : FileTree) (l : Location) : Prop :=
  t'.get? l = t.get? l ∨ t.get? l = none ∧ t'.get? l = some .directory ∧ made l

theorem Grown.trans (h : Grown made t t' l) (h' : Grown made t' u l) : Grown made t u l := by
  rcases h' with hsame | ⟨hnone, hdirectory, hmade⟩
  · rw [Grown, hsame]
    exact h
  · rcases h with hsame | ⟨-, hmade', -⟩
    · exact .inr ⟨hsame ▸ hnone, hdirectory, hmade⟩
    · rw [hnone] at hmade'
      cases hmade'

theorem grown_makeDirectory (h : t.makeDirectory cwd p = .ok t')
    (hmade : made (Path.place cwd p)) (l : Location) : Grown made t t' l := by
  unfold makeDirectory at h
  split at h
  · cases h
  · next k hlocate =>
    split at h
    · cases h
    · next hnone =>
      cases h
      rw [← locate_place hlocate] at hmade
      by_cases hl : l = k
      · subst hl
        exact .inr ⟨hnone, get?_put_self t _ (ne_nil_of_get? (ne_directory_of_none hnone)), hmade⟩
      · exact .inl (get?_put_of_ne t _ hl)

/-- Only directories on the way to a path are made for it. -/
theorem grown_makeDirectories (rounds : Nat) (t : FileTree)
    (hmade : ∀ a, a = p ∨ Path.IsAncestor a p → made (Path.place cwd a)) (l : Location) :
    Grown made t (makeDirectories cwd rounds p t).2 l := by
  induction rounds generalizing p t with
  | zero => exact .inl rfl
  | succ rounds ih =>
    have hself := hmade p (.inl rfl)
    unfold makeDirectories
    split
    · exact .inl rfl
    · split
      · next hdirectory => exact grown_makeDirectory hdirectory hself l
      · split
        · exact .inl rfl
        · next q hq =>
          have habove := ih (p := q) t fun a ha => hmade a <| .inr <| by
            rcases ha with rfl | ha
            · exact .single hq
            · exact .head hq ha
          split
          · next hfail =>
            rw [hfail] at habove
            exact habove
          · next hok =>
            rw [hok] at habove
            split
            · next hdirectory => exact habove.trans (grown_makeDirectory hdirectory hself l)
            · split_ifs <;> exact habove
      · split_ifs <;> exact .inl rfl

/-- Directories that are made where nothing was replace neither directories nor files. -/
theorem keeps_of_grown (h : ∀ l, Grown made t t' l) : t.Keeps t' := by
  intro l hl
  rcases h l with hsame | ⟨hnone, -⟩
  · rwa [hsame]
  · rw [hnone] at hl
    cases hl

theorem Keeps.alters (hkeeps : t.Keeps t') (h : ∀ l, l ∉ ks → Grown made t t' l) :
    t.Alters ks t' := by
  refine ⟨hkeeps, fun l hl => ?_⟩
  rcases h l hl with hsame | ⟨hnone, hdirectory, -⟩
  · exact file?_of_get? hsame
  · rw [file?, file?, hnone, hdirectory]

theorem alters_put_file (h : t.get? l ≠ some .directory) (b : Bytes) :
    t.Alters [l] (t.put l (.file b)) := by
  refine ⟨keeps_put _ h, fun k hk => file?_of_get? ?_⟩
  exact get?_put_of_ne t _ fun heq => hk (List.mem_singleton.2 heq)

theorem alters_erase (h : t.get? l ≠ some .directory) : t.Alters [l] (t.erase l) := by
  refine ⟨keeps_erase h, fun k hk => file?_of_get? ?_⟩
  exact get?_erase_of_ne t fun heq => hk (List.mem_singleton.2 heq)

/-- What is removed was a file. -/
theorem remove_ok (h : t.remove cwd p = .ok t') :
    ∃ b, t.get? (Path.place cwd p) = some (.file b) ∧ t' = t.erase (Path.place cwd p) := by
  unfold remove at h
  split at h
  · cases h
  · next l hlocate =>
    rw [← locate_place hlocate]
    split at h
    · cases h
    · cases h
    · next b hfile =>
      cases h
      exact ⟨b, hfile, rfl⟩

theorem remove_of_located (hlocate : t.locate cwd p = .ok l) (hfile : t.get? l = some (.file b)) :
    t.remove cwd p = .ok (t.erase l) := by
  simp [remove, hlocate, hfile]

theorem alters_remove (h : t.remove cwd p = .ok t') : t.Alters [Path.place cwd p] t' := by
  obtain ⟨b, hfile, rfl⟩ := remove_ok h
  exact alters_erase (ne_directory_of_file hfile)

theorem alters_rename {target : String} (h : t.rename cwd p target = .ok t') :
    t.Alters [Path.place cwd p, Path.place cwd target] t' := by
  obtain ⟨l, k, b, hl, hk, hfile, htarget, rfl⟩ := rename_ok h
  rw [← locate_place hl, ← locate_place hk]
  have hsource := ne_directory_of_file hfile
  have herase : t.Alters [l, k] (t.erase l) := (alters_erase hsource).mono (by simp)
  have hput := alters_put_file (get?_erase_ne_directory hsource htarget) b
  exact herase.trans (hput.mono (by simp))

/-- What was not found is not found after another file is gone. -/
theorem walk_erase_notFound {k : Location} {names : List String} (hk : t.get? k ≠ some .directory)
    (h : t.walk l names = .error .notFound) : (t.erase k).walk l names = .error .notFound := by
  induction names generalizing l with
  | nil => cases h
  | cons name rest ih =>
    rw [walk] at h ⊢
    by_cases heq : l = k
    · subst heq
      rw [get?_erase_self t (ne_nil_of_get? hk)]
    · rw [get?_erase_of_ne t heq]
      cases hl : t.get? l with
      | none => rfl
      | some e =>
        rw [hl] at h
        cases e with
        | file b => cases h
        | directory =>
          dsimp only at h ⊢
          split_ifs at h ⊢
          · exact ih h
          · exact ih h
          · cases h
          · exact ih h

theorem locate_erase_notFound {k : Location} (hk : t.get? k ≠ some .directory)
    (h : t.locate cwd p = .error (.os .notFound)) :
    (t.erase k).locate cwd p = .error (.os .notFound) := by
  unfold locate at h ⊢
  generalize (if Path.isAbsolute p then [] else cwd) = start at h ⊢
  split_ifs at h ⊢
  · cases h
  · rfl
  · cases h
  · split at h
    · cases h
    · next e hwalk =>
      obtain rfl : e = .notFound := by simpa using h
      rw [walk_erase_notFound hk hwalk]

theorem read_erase_notFound {k : Location} (hk : t.get? k ≠ some .directory)
    (h : t.read cwd p = .error (.os .notFound)) :
    (t.erase k).read cwd p = .error (.os .notFound) := by
  unfold read at h
  split at h
  · next e hlocate =>
    obtain rfl : e = .os .notFound := by simpa using h
    rw [read, locate_erase_notFound hk hlocate]
  · next l hlocate =>
    have hnone : t.get? l = none := by
      split at h
      · assumption
      · cases h
      · cases h
    have hgone : (t.erase k).get? l = none := by
      by_cases heq : l = k
      · subst heq
        exact get?_erase_self t (ne_nil_of_get? hk)
      · rw [get?_erase_of_ne t heq, hnone]
    rw [read, (keeps_erase hk).locate hlocate]
    simp only [hgone]

end FileTree

namespace Disk

variable {d d' d'' : Disk} {ks ks' : List Location} {p q : String} {b : Bytes}

/-- The file at the place a path leads to, if one is there. -/
def fileAt (d : Disk) (p : String) : Option Bytes := d.tree.file? (Path.place d.cwd p)

/-- A disk that works in the same directory, and has the same files but those at some places. -/
structure Alters (ks : List Location) (d d' : Disk) : Prop where
  cwd : d'.cwd = d.cwd
  tree : d.tree.Alters ks d'.tree

namespace Alters

theorem refl (ks : List Location) (d : Disk) : d.Alters ks d := ⟨rfl, .refl ks d.tree⟩

theorem mono (h : d.Alters ks d') (hks : ks ⊆ ks') : d.Alters ks' d' := ⟨h.cwd, h.tree.mono hks⟩

theorem trans (h : d.Alters ks d') (h' : d'.Alters ks d'') : d.Alters ks d'' :=
  ⟨h'.cwd.trans h.cwd, h.tree.trans h'.tree⟩

theorem fileAt (h : d.Alters ks d') (hp : Path.place d.cwd p ∉ ks) :
    d'.fileAt p = d.fileAt p := by
  rw [Disk.fileAt, Disk.fileAt, h.cwd, h.tree.files _ hp]

theorem read (h : d.Alters ks d') (hp : Path.place d.cwd p ∉ ks) (hread : d.read p = .ok b) :
    d'.read p = .ok b := by
  rw [Disk.read, h.cwd]
  exact h.tree.read hp hread

end Alters

theorem alters_discard (d : Disk) (p : String) :
    d.Alters [Path.place d.cwd p] (d.discard p) := by
  unfold discard
  split
  · next t hremove => exact ⟨rfl, FileTree.alters_remove hremove⟩
  · exact .refl _ d

/-- What stands at a place is what stood there, or a directory that was missing above a path. -/
def SameAt (p : String) (d d' : Disk) (l : Location) : Prop :=
  FileTree.Grown (fun k => ∃ a, Path.IsAncestor a p ∧ k = Path.place d.cwd a) d.tree d'.tree l

theorem sameAt_makeParents (d : Disk) (p : String) (l : Location) :
    SameAt p d (d.makeParents p).2 l := by
  unfold makeParents
  split
  · exact .inl rfl
  · split
    · exact .inl rfl
    · next q hq =>
      refine FileTree.grown_makeDirectories _ d.tree (fun a ha => ⟨a, ?_, rfl⟩) l
      rcases ha with rfl | ha
      · exact .single hq
      · exact .head hq ha

theorem alters_makeParents (d : Disk) (p : String) : d.Alters [] (d.makeParents p).2 where
  cwd := by
    unfold makeParents
    split
    · rfl
    · split <;> rfl
  tree := (FileTree.keeps_of_grown (sameAt_makeParents d p)).alters
    fun l _ => sameAt_makeParents d p l

/-- The place of the new file. -/
def asidePlace (d : Disk) (p : String) : Location := Path.place d.cwd (d.temporary p)

theorem temporary_makeParents (d : Disk) (p : String) :
    (d.makeParents p).2.temporary p = d.temporary p := by
  unfold makeParents
  split
  · rfl
  · split <;> rfl

/-! ### A file that others leave alone -/

/-- A disk on which a file is as it was, both at its place and for those who read it. -/
structure Spares (p : String) (d d' : Disk) : Prop where
  cwd : d'.cwd = d.cwd
  file : d'.fileAt p = d.fileAt p
  read : d'.read p = d.read p

theorem Spares.refl (p : String) (d : Disk) : d.Spares p d := ⟨rfl, rfl, rfl⟩

theorem Spares.trans (h : d.Spares p d') (h' : d'.Spares p d'') : d.Spares p d'' :=
  ⟨h'.cwd.trans h.cwd, h'.file.trans h.file, h'.read.trans h.read⟩

theorem spares_spend (p : String) (d : Disk) : d.Spares p d.spend := ⟨rfl, rfl, rfl⟩

/-- A path that leads to a file, or to a place where nothing is. -/
def Settled (d : Disk) (p : String) : Prop :=
  (∃ b, d.read p = .ok b) ∨ d.read p = .error (.os .notFound)

theorem read_discard_notFound (h : d.read p = .error (.os .notFound)) (q : String) :
    (d.discard q).read p = .error (.os .notFound) := by
  unfold discard
  split
  · next t hremove =>
    obtain ⟨b, hfile, rfl⟩ := FileTree.remove_ok hremove
    exact FileTree.read_erase_notFound (FileTree.ne_directory_of_file hfile) h
  · exact h

/-- The removal of another file leaves a file alone, and leaves it missing if it was. -/
theorem spares_discard (h : d.Settled p) (hne : Path.place d.cwd p ≠ Path.place d.cwd q) :
    d.Spares p (d.discard q) := by
  have halters := alters_discard d q
  have hmem : Path.place d.cwd p ∉ [Path.place d.cwd q] := by simpa using hne
  refine ⟨halters.cwd, halters.fileAt hmem, ?_⟩
  rcases h with ⟨b, hread⟩ | hmissing
  · rw [hread]
    exact halters.read hmem hread
  · rw [hmissing]
    exact read_discard_notFound hmissing q

theorem slash_not_mem_stamp (d : Disk) : '/' ∉ d.stamp.toList := by
  have hdigits : ∀ n, '/' ∉ (Decimal.text n).toList := by
    intro n hmem
    rw [Decimal.text, String.toList_ofList] at hmem
    exact absurd (Decimal.isDigit_of_mem_digits hmem) (by decide)
  unfold stamp
  rw [String.toList_append, String.toList_append, List.mem_append, List.mem_append]
  rintro ((hmem | hmem) | hmem)
  · exact hdigits _ hmem
  · revert hmem
    decide
  · exact hdigits _ hmem

/-- A name with a stamp. -/
theorem isName_stamped (d : Disk) (front back : String) (hfront : '/' ∉ front.toList)
    (hback : '/' ∉ back.toList) (hlength : 3 ≤ front.length) :
    Path.IsName (front ++ d.stamp ++ back).toList := by
  have hlong : 3 ≤ (front ++ d.stamp ++ back).toList.length := by
    rw [String.length_toList, String.length_append, String.length_append]
    omega
  refine ⟨?_, ?_, ?_⟩
  · rw [Bool.eq_false_iff]
    intro hidle
    rcases Path.isIdle_iff.1 hidle with hidle | hidle <;>
      · rw [String.ofList_toList] at hidle
        rw [hidle] at hlong
        revert hlong
        decide
  · intro hup
    rw [hup] at hlong
    revert hlong
    decide
  · rw [String.toList_append, String.toList_append, List.mem_append, List.mem_append]
    rintro ((hmem | hmem) | hmem)
    · exact hfront hmem
    · exact slash_not_mem_stamp d hmem
    · exact hback hmem

theorem isName_aside (d : Disk) (p : String) :
    Path.IsName ("." ++ (Path.fileName? p).getD "tmpfile" ++ ".tmp." ++ d.stamp).toList := by
  have hname : '/' ∉ ((Path.fileName? p).getD "tmpfile").toList := by
    cases hp : Path.fileName? p with
    | none => decide
    | some name =>
      obtain ⟨-, -, hname⟩ := Path.cutLast_of_fileName? hp
      exact hname.whole
  have hfront : '/' ∉ ("." ++ (Path.fileName? p).getD "tmpfile" ++ ".tmp.").toList := by
    rw [String.toList_append, String.toList_append, List.mem_append, List.mem_append]
    rintro ((hmem | hmem) | hmem)
    · revert hmem
      decide
    · exact hname hmem
    · revert hmem
      decide
  have hlength : 3 ≤ ("." ++ (Path.fileName? p).getD "tmpfile" ++ ".tmp.").length := by
    rw [String.length_append]
    exact Nat.le_trans (by decide) (Nat.le_add_left ".tmp.".length _)
  have hstamped := isName_stamped d _ "" hfront (by decide) hlength
  rwa [String.append_empty] at hstamped

/-- The new file does not stand where the old one does. -/
theorem asidePlace_ne (d : Disk) (p : String) : d.asidePlace p ≠ Path.place d.cwd p := by
  refine Path.place_withFileName_ne d.cwd p (isName_aside d p) fun old hold heq => ?_
  rw [hold, Option.getD_some] at heq
  have hlength := congrArg String.length heq
  simp only [String.length_append] at hlength
  have hdot : ".".length = 1 := rfl
  omega

/-- The name of a new file begins with a dot. -/
theorem ne_asidePlace_of_head (d : Disk) (p : String) {name : String}
    (h : Path.fileName? q = some name) (hhead : name.toList.head? ≠ some '.') :
    Path.place d.cwd q ≠ d.asidePlace p := by
  intro heq
  have hlast := congrArg List.getLast? heq
  have haside : d.asidePlace p = _ := Path.place_withFileName d.cwd p (isName_aside d p)
  rw [haside, Path.place_of_fileName? d.cwd h, List.getLast?_concat, List.getLast?_concat] at hlast
  refine hhead ?_
  rw [Option.some.inj hlast, String.toList_append, String.toList_append, String.toList_append]
  rfl

end Disk

end FaultSweep
