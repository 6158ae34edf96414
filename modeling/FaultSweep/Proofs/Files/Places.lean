import Mathlib.Data.List.TakeWhile
import FaultSweep.Proofs.Files.Replacing

/-!
# The places of paths

A path text leads to one place only, whatever the tree: the tree decides whether one gets there.
Where a path leads can be told from its segments, and so can where its parent leads and where a file
of another name beside it stands.
-/

namespace FaultSweep

namespace Path

/-! ### Segments -/

theorem segments_ne_nil (cs : List Char) : segments cs ≠ [] := by
  cases cs with
  | nil => exact List.cons_ne_nil _ _
  | cons c cs =>
    unfold segments
    split
    · exact List.cons_ne_nil _ _
    · split <;> exact List.cons_ne_nil _ _

theorem segments_slash (cs : List Char) : segments ('/' :: cs) = [] :: segments cs := by
  rw [segments, if_pos rfl]

theorem segments_cons {c : Char} (hc : c ≠ '/') {cs s : List Char} {ss : List (List Char)}
    (h : segments cs = s :: ss) : segments (c :: cs) = (c :: s) :: ss := by
  rw [segments, if_neg hc, h]

theorem segments_append_slash (xs ys : List Char) :
    segments (xs ++ '/' :: ys) = segments xs ++ segments ys := by
  induction xs with
  | nil => exact segments_slash ys
  | cons c xs ih =>
    by_cases hc : c = '/'
    · subst hc
      rw [List.cons_append, segments_slash, segments_slash, ih, List.cons_append]
    · obtain ⟨s, ss, hs⟩ := List.exists_cons_of_ne_nil (segments_ne_nil xs)
      rw [hs, List.cons_append] at ih
      rw [List.cons_append, segments_cons hc ih, segments_cons hc hs, List.cons_append]

theorem segments_of_not_mem {cs : List Char} (h : '/' ∉ cs) : segments cs = [cs] := by
  induction cs with
  | nil => rfl
  | cons c cs ih =>
    rw [List.mem_cons, not_or] at h
    exact segments_cons (Ne.symm h.1) (ih h.2)

theorem not_mem_of_mem_segments {cs s : List Char} (h : s ∈ segments cs) : '/' ∉ s := by
  induction cs generalizing s with
  | nil =>
    rw [List.mem_singleton.1 h]
    exact List.not_mem_nil
  | cons c cs ih =>
    by_cases hc : c = '/'
    · subst hc
      rw [segments_slash] at h
      rcases List.mem_cons.1 h with rfl | h
      · exact List.not_mem_nil
      · exact ih h
    · obtain ⟨t, ts, ht⟩ := List.exists_cons_of_ne_nil (segments_ne_nil cs)
      rw [segments_cons hc ht] at h
      rcases List.mem_cons.1 h with rfl | h
      · have htail := ih (s := t) (by rw [ht]; exact List.mem_cons_self)
        exact List.not_mem_cons_of_ne_of_not_mem (Ne.symm hc) htail
      · exact ih (by rw [ht]; exact List.mem_cons_of_mem _ h)

theorem joinSegments_cons {s : List Char} {ss : List (List Char)} (h : ss ≠ []) :
    joinSegments (s :: ss) = s ++ '/' :: joinSegments ss := by
  obtain ⟨t, ts, rfl⟩ := List.exists_cons_of_ne_nil h
  rw [joinSegments, List.intercalate_cons_cons, List.append_assoc]
  rfl

theorem joinSegments_singleton (s : List Char) : joinSegments [s] = s := by
  simp [joinSegments]

theorem joinSegments_append {ss ts : List (List Char)} (hs : ss ≠ []) (ht : ts ≠ []) :
    joinSegments (ss ++ ts) = joinSegments ss ++ '/' :: joinSegments ts := by
  induction ss with
  | nil => exact absurd rfl hs
  | cons s ss ih =>
    by_cases hnil : ss = []
    · subst hnil
      rw [List.singleton_append, joinSegments_cons ht, joinSegments_singleton]
    · rw [List.cons_append, joinSegments_cons (List.append_ne_nil_of_left_ne_nil hnil _),
        joinSegments_cons hnil, ih hnil, List.append_assoc, List.cons_append]

theorem segments_joinSegments {ss : List (List Char)} (hs : ss ≠ []) (h : ∀ s ∈ ss, '/' ∉ s) :
    segments (joinSegments ss) = ss := by
  induction ss with
  | nil => exact absurd rfl hs
  | cons s ss ih =>
    obtain ⟨hfirst, hrest⟩ := List.forall_mem_cons.1 h
    by_cases hnil : ss = []
    · subst hnil
      rw [joinSegments_singleton, segments_of_not_mem hfirst]
    · rw [joinSegments_cons hnil, segments_append_slash, segments_of_not_mem hfirst, ih hnil hrest,
        List.singleton_append]

theorem joinSegments_segments (cs : List Char) : joinSegments (segments cs) = cs := by
  induction cs with
  | nil => exact joinSegments_singleton []
  | cons c cs ih =>
    by_cases hc : c = '/'
    · subst hc
      rw [segments_slash, joinSegments_cons (segments_ne_nil cs), ih, List.nil_append]
    · obtain ⟨s, ss, hs⟩ := List.exists_cons_of_ne_nil (segments_ne_nil cs)
      rw [segments_cons hc hs]
      rw [hs] at ih
      by_cases hnil : ss = []
      · subst hnil
        rw [joinSegments_singleton] at ih ⊢
        rw [ih]
      · rw [joinSegments_cons hnil] at ih ⊢
        rw [List.cons_append, ih]

/-! ### Places -/

/-- The place one segment further. -/
def step (l : Location) (s : List Char) : Location :=
  if isIdle s then l else if s = ['.', '.'] then l.dropLast else l ++ [String.ofList s]

/-- Where a path starts. -/
def origin (cwd : Location) (p : String) : Location := if isAbsolute p then [] else cwd

/-- The place a path leads to if all directories on its way are there. -/
def place (cwd : Location) (p : String) : Location :=
  (segments p.toList).foldl step (origin cwd p)

theorem step_of_idle {s : List Char} (h : isIdle s = true) (l : Location) : step l s = l := by
  rw [step, if_pos h]

theorem foldl_step_of_idle {ss : List (List Char)} (h : ∀ s ∈ ss, isIdle s = true) (l : Location) :
    ss.foldl step l = l := by
  induction ss generalizing l with
  | nil => rfl
  | cons s ss ih =>
    obtain ⟨hs, hss⟩ := List.forall_mem_cons.1 h
    rw [List.foldl_cons, step_of_idle hs, ih hss]

/-- A segment that names something. -/
structure IsName (s : List Char) : Prop where
  busy : isIdle s = false
  onward : s ≠ ['.', '.']
  whole : '/' ∉ s

theorem step_of_isName {s : List Char} (h : IsName s) (l : Location) :
    step l s = l ++ [String.ofList s] := by
  rw [step, h.busy, if_neg Bool.false_ne_true, if_neg h.onward]

theorem isIdle_iff {s : List Char} :
    isIdle s = true ↔ String.ofList s = "" ∨ String.ofList s = "." := by
  have hempty : String.ofList s = "" ↔ s = [] := @String.ofList_inj _ []
  have hdot : String.ofList s = "." ↔ s = ['.'] := @String.ofList_inj _ ['.']
  rw [hempty, hdot]
  simp [isIdle]

/-! ### Names beside and below -/

theorem isAbsolute_of_front {p q : String} {rest : List Char} (h : p.toList = q.toList ++ rest)
    (hq : q.toList ≠ []) : isAbsolute p = isAbsolute q := by
  obtain ⟨c, cs, hcs⟩ := List.exists_cons_of_ne_nil hq
  rw [isAbsolute, isAbsolute, h, hcs]
  rfl

theorem IsName.isAbsolute {name : String} (h : IsName name.toList) : isAbsolute name = false := by
  unfold Path.isAbsolute
  cases hcs : name.toList with
  | nil => rfl
  | cons c cs =>
    have hc : c ≠ '/' := by
      rintro rfl
      exact h.whole (hcs ▸ List.mem_cons_self)
    simpa using hc

theorem place_empty (cwd : Location) : place cwd "" = cwd := rfl

/-- A name is found below the place it is joined to. -/
theorem place_join (cwd : Location) (base : String) {name : String} (h : IsName name.toList) :
    place cwd (join base name) = place cwd base ++ [name] := by
  have hname : segments name.toList = [name.toList] := segments_of_not_mem h.whole
  have hstep : ∀ l, step l name.toList = l ++ [name] := by
    intro l
    rw [step_of_isName h, String.ofList_toList]
  unfold join
  rw [h.isAbsolute, if_neg Bool.false_ne_true]
  by_cases hbase : base = ""
  · subst hbase
    rw [if_pos rfl, place_empty, place, hname, List.foldl_cons, List.foldl_nil, hstep, origin,
      h.isAbsolute, if_neg Bool.false_ne_true]
  · have hnil : base.toList ≠ [] := fun hnil => hbase (String.toList_eq_nil_iff.1 hnil)
    rw [if_neg hbase]
    split_ifs with hslash
    · obtain ⟨xs, hxs⟩ := List.getLast?_eq_some_iff.1 hslash
      have htext : (base ++ name).toList = xs ++ '/' :: name.toList := by
        rw [String.toList_append, hxs, List.append_assoc, List.singleton_append]
      have horigin : origin cwd (base ++ name) = origin cwd base := by
        rw [origin, origin, isAbsolute_of_front (String.toList_append ..) hnil]
      have hsegments : segments base.toList = segments xs ++ [[]] := by
        rw [hxs]
        exact segments_append_slash xs []
      rw [place, place, htext, segments_append_slash, hname, horigin, hsegments, List.foldl_append,
        List.foldl_append, List.foldl_cons, List.foldl_nil, hstep, List.foldl_cons, List.foldl_nil,
        step_of_idle rfl]
    · have htext : (base ++ "/" ++ name).toList = base.toList ++ '/' :: name.toList := by
        rw [String.toList_append, String.toList_append, List.append_assoc]
        rfl
      have horigin : origin cwd (base ++ "/" ++ name) = origin cwd base := by
        rw [origin, origin, isAbsolute_of_front htext hnil]
      rw [place, place, htext, segments_append_slash, hname, horigin, List.foldl_append,
        List.foldl_cons, List.foldl_nil, hstep]

/-- The last component of a path, and the segments in front of it. -/
theorem segments_of_cutLast {p : String} {front : List (List Char)} {s : List Char}
    (h : cutLast p = some (front, s)) (hs : s ≠ ['.']) :
    isIdle s = false ∧ ∃ idles, segments p.toList = front.reverse ++ s :: idles ∧
      ∀ x ∈ idles, isIdle x = true := by
  unfold cutLast at h
  dsimp only at h
  split at h
  · next s' front' hgo =>
    cases h
    have hsplit := List.takeWhile_append_dropWhile (p := isIdle) (l := (segments p.toList).reverse)
    rw [hgo] at hsplit
    refine ⟨?_, ((segments p.toList).reverse.takeWhile isIdle).reverse, ?_, ?_⟩
    · have hhead := List.head?_dropWhile_not isIdle (segments p.toList).reverse
      rw [hgo] at hhead
      simpa using hhead
    · simpa using (congrArg List.reverse hsplit).symm
    · intro x hx
      exact List.mem_takeWhile_imp (List.mem_reverse.1 hx)
  · split_ifs at h
    cases h
    exact absurd rfl hs

theorem cutLast_of_fileName? {p name : String} (h : fileName? p = some name) :
    ∃ front, cutLast p = some (front, name.toList) ∧ IsName name.toList := by
  unfold fileName? at h
  split at h
  · next front s hcut =>
    split_ifs at h with hdots
    cases h
    rw [not_or] at hdots
    obtain ⟨hbusy, idles, hsegments, -⟩ := segments_of_cutLast hcut hdots.1
    have hmem : s ∈ segments p.toList := by
      rw [hsegments]
      exact List.mem_append_right _ List.mem_cons_self
    rw [String.toList_ofList]
    exact ⟨front, hcut, hbusy, hdots.2, not_mem_of_mem_segments hmem⟩
  · cases h

/-- What a parent looks like: nothing in front of the last component names anything, or it is the
text up to the last segment that does. -/
theorem parent?_cases {p : String} {front : List (List Char)} {s : List Char}
    (h : cutLast p = some (front, s)) (hs : s ≠ ['.']) : ∃ q, parent? p = some q ∧
      (((∀ x ∈ front, isIdle x = true) ∧
          (isAbsolute p = true ∧ q = "/" ∨ isAbsolute p = false ∧ (q = "." ∨ q = ""))) ∨
        ∃ kept idles rest, front.reverse = kept ++ idles ∧ (∀ x ∈ idles, isIdle x = true) ∧
          segments q.toList = kept ∧ p.toList = q.toList ++ rest ∧ q.toList ≠ []) := by
  obtain ⟨-, after, hsegments, -⟩ := segments_of_cutLast h hs
  unfold parent?
  rw [h, Option.map_some]
  dsimp only
  have hsplit := List.takeWhile_append_dropWhile (p := isIdle) (l := front)
  cases hkept : front.dropWhile isIdle with
  | nil =>
    refine ⟨_, rfl, .inl ⟨List.dropWhile_eq_nil_iff.1 hkept, ?_⟩⟩
    dsimp only
    split_ifs <;> simp_all
  | cons k ks =>
    rw [hkept] at hsplit
    have hk : isIdle k = false := by
      have hhead := List.head?_dropWhile_not isIdle front
      rw [hkept] at hhead
      simpa using hhead
    have hfront : front.reverse = (k :: ks).reverse ++ (front.takeWhile isIdle).reverse := by
      rw [← List.reverse_append, hsplit]
    have hwhole : segments p.toList =
        (k :: ks).reverse ++ ((front.takeWhile isIdle).reverse ++ s :: after) := by
      rw [hsegments, hfront, List.append_assoc]
    have hreverse : (k :: ks).reverse ≠ [] := by simp
    have hkeeps : segments (joinSegments (k :: ks).reverse) = (k :: ks).reverse := by
      refine segments_joinSegments hreverse fun x hx => ?_
      have hmem : x ∈ segments p.toList := by
        rw [hwhole]
        exact List.mem_append_left _ hx
      exact not_mem_of_mem_segments hmem
    refine ⟨_, rfl, .inr ⟨(k :: ks).reverse, (front.takeWhile isIdle).reverse,
      '/' :: joinSegments ((front.takeWhile isIdle).reverse ++ s :: after), hfront, ?_, ?_, ?_, ?_⟩⟩
    · intro x hx
      exact List.mem_takeWhile_imp (List.mem_reverse.1 hx)
    · rw [String.toList_ofList, hkeeps]
    · rw [String.toList_ofList, ← joinSegments_append hreverse (by simp), ← hwhole,
        joinSegments_segments]
    · rw [String.toList_ofList]
      intro hnil
      rw [hnil] at hkeeps
      have hmem : k ∈ segments [] := by
        rw [hkeeps]
        simp
      rw [List.mem_singleton.1 hmem] at hk
      cases hk

/-- Where a parent leads. -/
theorem place_parent (cwd : Location) {p : String} {front : List (List Char)} {s : List Char}
    (h : cutLast p = some (front, s)) (hs : s ≠ ['.']) :
    ∃ q, parent? p = some q ∧ place cwd q = front.reverse.foldl step (origin cwd p) := by
  obtain ⟨q, hq, hshape⟩ := parent?_cases h hs
  refine ⟨q, hq, ?_⟩
  rcases hshape with ⟨hidle, hshape⟩ | ⟨kept, idles, rest, hfront, hidle, hkept, hrest, hne⟩
  · rw [foldl_step_of_idle fun x hx => hidle x (List.mem_reverse.1 hx), origin]
    rcases hshape with ⟨habsolute, rfl⟩ | ⟨hrelative, rfl | rfl⟩
    · rw [habsolute]
      rfl
    · rw [hrelative]
      rfl
    · rw [hrelative]
      rfl
  · rw [hfront, List.foldl_append, foldl_step_of_idle hidle, place, hkept, origin, origin,
      isAbsolute_of_front hrest hne]

/-- A path leads to its last component below its parent. -/
theorem place_of_fileName? (cwd : Location) {p name : String} (h : fileName? p = some name) :
    place cwd p = place cwd ((parent? p).getD "") ++ [name] := by
  obtain ⟨front, hcut, hname⟩ := cutLast_of_fileName? h
  have hdot : name.toList ≠ ['.'] := by
    intro hdot
    have hbusy := hname.busy
    rw [hdot] at hbusy
    cases hbusy
  obtain ⟨-, idles, hsegments, hidle⟩ := segments_of_cutLast hcut hdot
  obtain ⟨q, hq, hplace⟩ := place_parent cwd hcut hdot
  rw [hq, Option.getD_some, hplace, place, hsegments, List.foldl_append, List.foldl_cons,
    step_of_isName hname, foldl_step_of_idle hidle, String.ofList_toList]

/-- Files with two names are two. -/
theorem place_ne_of_fileName? (cwd : Location) {p q name other : String}
    (hp : fileName? p = some name) (hq : fileName? q = some other) (hne : name ≠ other) :
    place cwd p ≠ place cwd q := by
  intro heq
  rw [place_of_fileName? cwd hp, place_of_fileName? cwd hq] at heq
  exact hne (List.singleton_inj.1 (List.append_inj' heq rfl).2)

/-- The name beside a path is the last of its place. -/
theorem place_withFileName (cwd : Location) (p : String) {name : String} (h : IsName name.toList) :
    place cwd (withFileName p name) = place cwd (match fileName? p with
      | some _ => (parent? p).getD ""
      | none => p) ++ [name] := by
  unfold withFileName
  cases fileName? p <;> exact place_join cwd _ h

/-- A longer name beside a path stands in another place. -/
theorem place_withFileName_ne (cwd : Location) (p : String) {name : String}
    (h : IsName name.toList) (hlonger : ∀ old, fileName? p = some old → old ≠ name) :
    place cwd (withFileName p name) ≠ place cwd p := by
  rw [place_withFileName cwd p h]
  cases hold : fileName? p with
  | none =>
    intro heq
    simpa using congrArg List.length heq
  | some old =>
    rw [place_of_fileName? cwd hold]
    intro heq
    have hlast := (List.append_inj' heq rfl).2
    exact hlonger old hold (List.singleton_inj.1 hlast).symm

/-- The directory of a file, as a path that is not empty. -/
def above (p : String) : String :=
  match parent? p with
  | some q => if q = "" then "." else q
  | none => "."

/-- A path without a last component has no segment that names anything. -/
theorem cutLast_or_idle (p : String) : (∀ x ∈ segments p.toList, isIdle x = true) ∨
    ∃ front s, cutLast p = some (front, s) ∧ s ≠ ['.'] := by
  cases hgo : (segments p.toList).reverse.dropWhile isIdle with
  | nil =>
    left
    intro x hx
    exact List.dropWhile_eq_nil_iff.1 hgo x (List.mem_reverse.2 hx)
  | cons s front =>
    have hbusy : isIdle s = false := by
      have hhead := List.head?_dropWhile_not isIdle (segments p.toList).reverse
      rw [hgo] at hhead
      simpa using hhead
    refine .inr ⟨front, s, ?_, ?_⟩
    · simp [cutLast, hgo]
    · rintro rfl
      cases hbusy

end Path

namespace FileTree

open FaultSweep.Path

variable {t : FileTree} {cwd l k : Location}

/-- Whoever gets past a segment is in the place it leads to. -/
theorem walk_cons_ok {s : List Char} {names : List String}
    (h : t.walk l (String.ofList s :: names) = .ok k) :
    t.get? l = some .directory ∧
      ∀ names', t.walk l (String.ofList s :: names') = t.walk (step l s) names' := by
  have hup : String.ofList s = ".." ↔ s = ['.', '.'] := @String.ofList_inj _ ['.', '.']
  rw [walk] at h
  split at h
  · cases h
  · cases h
  · next hdirectory =>
    refine ⟨hdirectory, fun names' => ?_⟩
    rw [walk, hdirectory]
    unfold step
    dsimp only
    split at h
    · next hidle => rw [if_pos hidle, if_pos (isIdle_iff.2 hidle)]
    · next hbusy =>
      rw [if_neg hbusy, if_neg fun hidle => hbusy (isIdle_iff.1 hidle)]
      split at h
      · next hdots => rw [if_pos hdots, if_pos (hup.1 hdots)]
      · next hname =>
        rw [if_neg hname, if_neg fun hdots => hname (hup.2 hdots)]
        split at h
        · cases h
        · next hlong => rw [if_neg hlong]

theorem walk_append_ok {ss : List (List Char)} {names : List String}
    (h : t.walk l (ss.map String.ofList ++ names) = .ok k) :
    t.walk l (ss.map String.ofList) = .ok (ss.foldl step l) ∧
      t.walk (ss.foldl step l) names = .ok k := by
  induction ss generalizing l with
  | nil => exact ⟨rfl, h⟩
  | cons s ss ih =>
    rw [List.map_cons, List.cons_append] at h
    obtain ⟨-, honward⟩ := walk_cons_ok h
    rw [honward] at h
    rw [List.map_cons, honward, List.foldl_cons]
    exact ih h

/-- What a path has to be to lead anywhere at all. -/
theorem locate_ok_iff {p : String} : t.locate cwd p = .ok k ↔
    '\x00' ∉ p.toList ∧ p ≠ "" ∧ p.utf8ByteSize < pathLimit ∧
      t.walk (origin cwd p) ((segments p.toList).map String.ofList) = .ok k := by
  have horigin : (if isAbsolute p then [] else cwd) = origin cwd p := rfl
  unfold locate
  rw [horigin]
  by_cases hnul : '\x00' ∈ p.toList
  · simp [hnul]
  · by_cases hempty : p = ""
    · simp [hempty]
    · by_cases hlong : pathLimit ≤ p.utf8ByteSize
      · simp [hnul, hempty, hlong, Nat.not_lt.2 hlong]
      · rcases t.walk (origin cwd p) ((segments p.toList).map String.ofList) with e | l <;>
          simp [hnul, hempty, hlong, Nat.lt_of_not_le hlong]

/-- Whoever gets somewhere gets to the place of the path. -/
theorem locate_place {p : String} (h : t.locate cwd p = .ok k) : k = place cwd p := by
  obtain ⟨-, -, -, hwalk⟩ := locate_ok_iff.1 h
  rw [← List.append_nil (List.map _ _)] at hwalk
  exact (Except.ok.inj (walk_append_ok hwalk).2).symm

theorem mem_of_front {p q : String} {rest : List Char} (h : p.toList = q.toList ++ rest)
    {c : Char} (hc : c ∈ q.toList) : c ∈ p.toList := by
  rw [h]
  exact List.mem_append_left _ hc

theorem size_le_of_front {p q : String} {rest : List Char} (h : p.toList = q.toList ++ rest) :
    q.utf8ByteSize ≤ p.utf8ByteSize := by
  have hp : p = q ++ String.ofList rest := by
    rw [← String.toList_inj, h, String.toList_append, String.toList_ofList]
  rw [hp, String.utf8ByteSize_append]
  exact Nat.le_add_right _ _

/-- A path whose segments name nothing leads to a directory if it starts in one. -/
theorem locate_of_idle {q : String} (hidle : ∀ x ∈ segments q.toList, isIdle x = true)
    (hempty : q ≠ "") (hnul : '\x00' ∉ q.toList) (hshort : q.utf8ByteSize < pathLimit)
    (hdirectory : t.get? (origin cwd q) = some .directory) :
    t.locate cwd q = .ok (origin cwd q) := by
  refine locate_ok_iff.2 ⟨hnul, hempty, hshort, ?_⟩
  generalize segments q.toList = ss at hidle
  induction ss with
  | nil => rfl
  | cons s ss ih =>
    obtain ⟨hs, hss⟩ := List.forall_mem_cons.1 hidle
    rw [List.map_cons, walk, hdirectory]
    dsimp only
    rw [if_pos (isIdle_iff.1 hs)]
    exact ih hss

/-- Whoever gets to a file gets to its directory. -/
theorem locate_above {p : String} {b : Utf8.Bytes} (h : t.locate cwd p = .ok k)
    (hfile : t.get? k = some (.file b)) :
    ∃ l, t.locate cwd (above p) = .ok l ∧ t.get? l = some .directory := by
  obtain ⟨hnul, hempty, hshort, hwalk⟩ := locate_ok_iff.1 h
  rcases cutLast_or_idle p with hidle | ⟨front, s, hcut, hs⟩
  -- A path whose segments name nothing leads to where it starts, and that is no file.
  · obtain ⟨x, xs, hxs⟩ := List.exists_cons_of_ne_nil (segments_ne_nil p.toList)
    have hplace : k = origin cwd p := by
      rw [locate_place h, place, foldl_step_of_idle hidle]
    rw [hxs, List.map_cons] at hwalk
    obtain ⟨hdirectory, -⟩ := walk_cons_ok hwalk
    rw [← hplace, hfile] at hdirectory
    cases hdirectory
  · obtain ⟨-, after, hsegments, -⟩ := segments_of_cutLast hcut hs
    rw [hsegments, List.map_append, List.map_cons] at hwalk
    obtain ⟨hfront, hlast⟩ := walk_append_ok hwalk
    obtain ⟨hdirectory, -⟩ := walk_cons_ok hlast
    obtain ⟨q, hq, hshape⟩ := parent?_cases hcut hs
    have habove : above p = if q = "" then "." else q := by rw [above, hq]
    rw [habove]
    rcases hshape with ⟨hidle, hshape⟩ | ⟨kept, idles, rest, hkept, hidle, hq', hrest, hne⟩
    · rw [foldl_step_of_idle fun x hx => hidle x (List.mem_reverse.1 hx), origin] at hdirectory
      rcases hshape with ⟨habsolute, rfl⟩ | ⟨hrelative, hq⟩
      · rw [habsolute, if_pos rfl] at hdirectory
        exact ⟨_, locate_of_idle (by decide) (by decide) (by decide) (by decide) hdirectory,
          hdirectory⟩
      · rw [hrelative, if_neg Bool.false_ne_true] at hdirectory
        have hdot : (if q = "" then "." else q) = "." := by
          rcases hq with rfl | rfl <;> rfl
        rw [hdot]
        exact ⟨_, locate_of_idle (by decide) (by decide) (by decide) (by decide) hdirectory,
          hdirectory⟩
    · have hne' : q ≠ "" := fun hnil => hne (String.toList_eq_nil_iff.2 hnil)
      rw [if_neg hne']
      refine ⟨front.reverse.foldl step (origin cwd p), locate_ok_iff.2 ⟨fun hmem =>
        hnul (mem_of_front hrest hmem), hne', Nat.lt_of_le_of_lt (size_le_of_front hrest) hshort,
        ?_⟩, hdirectory⟩
      have horigin : origin cwd q = origin cwd p := by
        rw [origin, origin, isAbsolute_of_front hrest hne]
      rw [hkept, List.map_append] at hfront
      rw [hq', hkept, List.foldl_append, foldl_step_of_idle hidle, horigin]
      exact (walk_append_ok hfront).1

end FileTree

end FaultSweep
