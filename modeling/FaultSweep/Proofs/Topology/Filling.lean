import FaultSweep.Proofs.Topology.Template

/-!
# Filled templates

What it is to fill a template can be said without a renderer: each placeholder is replaced where it
stands, for one name after the other. For every argument there is just one way to fill it.
-/

namespace FaultSweep

namespace Template

/-- One text is another with a name in braces replaced by a value. The text is read from left to
right, and what belongs to a placeholder is not read again. -/
inductive Replaced (name value : String) : List Char → List Char → Prop
  | done : Replaced name value [] []
  | here {cs out : List Char} (h : Replaced name value cs out) :
      Replaced name value ('\x7b' :: (name.toList ++ '\x7d' :: cs)) (value.toList ++ out)
  | past {c : Char} {cs out : List Char}
      (hc : ∀ rest, c :: cs ≠ '\x7b' :: (name.toList ++ '\x7d' :: rest))
      (h : Replaced name value cs out) : Replaced name value (c :: cs) (c :: out)

/-- The names are replaced one after the other, each in the result of those before it. -/
inductive Filled : List (String × String) → List Char → List Char → Prop
  | done (cs : List Char) : Filled [] cs cs
  | next {name value : String} {values : List (String × String)} {cs ds out : List Char}
      (h : Replaced name value cs ds) (hrest : Filled values ds out) :
      Filled ((name, value) :: values) cs out

namespace Replaced

variable {name value : String} {cs ds : List Char}

theorem replace (name value : String) (cs : List Char) :
    Replaced name value cs (Text.replace (token name) value.toList cs) := by
  -- A placeholder is passed over as a whole, so the induction is on the length.
  induction hlength : cs.length using Nat.strongRecOn generalizing cs with
  | ind n ih =>
    subst hlength
    cases cs with
    | nil => exact .done
    | cons c cs =>
      by_cases hprefix : token name <+: c :: cs
      · obtain ⟨rest, hrest⟩ := hprefix
        have hshorter : rest.length < (c :: cs).length := by
          rw [← hrest]
          simp [token]
          omega
        have hhere := (ih _ hshorter rest rfl).here
        rw [← hrest, Text.replace_append (by simp [token])]
        simpa [token] using hhere
      · rw [Text.replace_cons hprefix]
        refine .past (fun rest hrest => hprefix ⟨rest, ?_⟩) (ih _ (Nat.lt_succ_self _) cs rfl)
        rw [hrest]
        simp [token]

theorem unique {out out' : List Char} (h : Replaced name value cs out)
    (h' : Replaced name value cs out') : out = out' := by
  induction h generalizing out' with
  | done =>
    cases h'
    rfl
  | @here cs out _ ih =>
    generalize hcs : '\x7b' :: (name.toList ++ '\x7d' :: cs) = ds at h'
    cases h' with
    | done => cases hcs
    | @here cs' _ hrest =>
      have hsame : cs = cs' := by simpa using hcs
      subst hsame
      rw [ih hrest]
    | past hc => exact absurd hcs.symm (hc cs)
  | @past c cs out hc _ ih =>
    generalize hcs : c :: cs = ds at h'
    cases h' with
    | done => cases hcs
    | here => exact absurd hcs (hc _)
    | past _ hrest =>
      obtain ⟨rfl, rfl⟩ := List.cons.inj hcs
      rw [ih hrest]

end Replaced

/-- A text is filled in one way only, and the passes come to it. -/
theorem filled_iff {values : List (String × String)} {cs out : List Char} :
    Filled values cs out ↔ out = passes values cs := by
  constructor
  · intro h
    induction h with
    | done => rfl
    | @next name value _ cs _ _ h _ ih =>
      rw [ih, h.unique (.replace name value cs)]
      rfl
  · rintro rfl
    induction values generalizing cs with
    | nil => exact .done cs
    | cons p values ih => exact .next (.replace p.1 p.2 cs) ih

/-- A renderer is started with the arguments of its template, each of them filled. -/
theorem forall₂_filled_render (argv : List String) (spec : TopologySpec) :
    List.Forall₂ (fun a r => Filled (values spec) a.toList r.toList) argv (render argv spec) := by
  rw [render, List.forall₂_map_right_iff, List.forall₂_same]
  intro a _
  rw [String.toList_ofList, filled_iff, renderChars_eq]

end Template

end FaultSweep
