import Mathlib.Data.List.Forall2
import FaultSweep.Proofs.Text.Delimiters
import FaultSweep.Topology.Template

/-!
# Rendering a template

The placeholders of a template are replaced one after the other, each in the result of those before
it. As long as no brace stands open inside another, and the label of the payload opens none, this is
the same as one scan from left to right that replaces each placeholder where it stands and never
looks at what it has inserted.
-/

namespace FaultSweep

namespace Text

variable {pattern value : List Char}

theorem replaceFrom_append (cs ds : List Char) :
    replaceFrom pattern value cs.length (cs ++ ds) = replace pattern value ds := by
  induction cs with
  | nil => rfl
  | cons c cs ih => exact ih

theorem replace_cons {c : Char} {cs : List Char} (h : ¬pattern <+: c :: cs) :
    replace pattern value (c :: cs) = c :: replace pattern value cs := by
  have hfits : pattern.isPrefixOf (c :: cs) = false :=
    Bool.eq_false_iff.2 fun hp => h (List.isPrefixOf_iff_prefix.1 hp)
  rw [replace, replaceFrom, hfits]
  rfl

theorem replace_append (hne : pattern ≠ []) (cs : List Char) :
    replace pattern value (pattern ++ cs) = value ++ replace pattern value cs := by
  obtain ⟨p, ps, rfl⟩ := List.exists_cons_of_ne_nil hne
  have hfits : (p :: ps).isPrefixOf (p :: (ps ++ cs)) = true := by simp
  rw [List.cons_append, replace, replaceFrom, if_pos hfits]
  exact congrArg _ (replaceFrom_append ps cs)

end Text

namespace Template

open Text

/-- A text in braces. -/
def field (name : List Char) : List Char := '\x7b' :: (name ++ ['\x7d'])

structure Braceless (cs : List Char) : Prop where
  opens : '\x7b' ∉ cs
  closes : '\x7d' ∉ cs

theorem field_leads_iff {name name' cs : List Char} (h : '\x7d' ∉ name) (h' : '\x7d' ∉ name') :
    field name <+: field name' ++ cs ↔ name = name' := by
  constructor
  · rintro ⟨ds, hds⟩
    have hrest : name ++ '\x7d' :: ds = name' ++ '\x7d' :: cs := by simpa [field] using hds
    exact (append_delimiter_inj h h' hrest).1
  · rintro rfl
    exact List.prefix_append _ _

theorem not_field_leads_of_ne {name cs : List Char} {c : Char} (hc : c ≠ '\x7b') :
    ¬field name <+: c :: cs := by
  rw [field, List.cons_prefix_cons]
  exact fun h => hc h.1.symm

theorem not_field_leads_of_unclosed {name cs : List Char} (hcs : '\x7d' ∉ cs) :
    ¬field name <+: cs :=
  fun h => hcs (h.mem (by simp [field]))

/-! ### One pass -/

section

variable {name value : List Char}

/-- Text that opens no brace is passed over. -/
theorem replace_plain {as : List Char} (has : '\x7b' ∉ as) (cs : List Char) :
    replace (field name) value (as ++ cs) = as ++ replace (field name) value cs := by
  induction as with
  | nil => rfl
  | cons a as ih =>
    obtain ⟨ha, has⟩ := not_or.1 (List.mem_cons.not.1 has)
    rw [List.cons_append, replace_cons (not_field_leads_of_ne (Ne.symm ha)), ih has,
      List.cons_append]

theorem replace_field (cs : List Char) :
    replace (field name) value (field name ++ cs) = value ++ replace (field name) value cs :=
  replace_append (List.cons_ne_nil _ _) cs

/-- A placeholder of another name is passed over. -/
theorem replace_other {name' : List Char} (hname : '\x7d' ∉ name) (hname' : Braceless name')
    (hne : name ≠ name') (cs : List Char) :
    replace (field name) value (field name' ++ cs) =
      field name' ++ replace (field name) value cs := by
  have hprefix : ¬field name <+: '\x7b' :: (name' ++ ['\x7d'] ++ cs) :=
    fun h => hne ((field_leads_iff hname hname'.closes).1 h)
  have hplain : '\x7b' ∉ name' ++ ['\x7d'] := by simp [hname'.opens]
  have hfield : field name' ++ cs = '\x7b' :: (name' ++ ['\x7d'] ++ cs) := rfl
  rw [hfield, replace_cons hprefix, replace_plain hplain]
  rfl

/-- Text that closes no brace is passed over. -/
theorem replace_unclosed {cs : List Char} (hcs : '\x7d' ∉ cs) :
    replace (field name) value cs = cs := by
  induction cs with
  | nil => rfl
  | cons c cs ih =>
    rw [replace_cons (not_field_leads_of_unclosed hcs), ih (List.not_mem_of_not_mem_cons hcs)]

end

/-! ### All passes -/

/-- The passes for a list of names and values. -/
def passes (values : List (String × String)) (cs : List Char) : List Char :=
  renderChars (values.map fun p => (token p.1, p.2.toList)) cs

theorem passes_cons (p : String × String) (values : List (String × String)) (cs : List Char) :
    passes (p :: values) cs = passes values (replace (field p.1.toList) p.2.toList cs) := rfl

@[simp] theorem passes_nil (values : List (String × String)) : passes values [] = [] := by
  induction values with
  | nil => rfl
  | cons p values ih => rw [passes_cons, replace_nil, ih]

theorem passes_plain {as : List Char} (has : '\x7b' ∉ as) (values : List (String × String))
    (cs : List Char) : passes values (as ++ cs) = as ++ passes values cs := by
  induction values generalizing cs with
  | nil => rfl
  | cons p values ih => rw [passes_cons, passes_cons, replace_plain has, ih]

theorem passes_unclosed {cs : List Char} (hcs : '\x7d' ∉ cs) (values : List (String × String)) :
    passes values cs = cs := by
  induction values with
  | nil => rfl
  | cons p values ih => rw [passes_cons, replace_unclosed hcs, ih]

/-- Names that can stand in braces, and values that open none. -/
def Suitable (values : List (String × String)) : Prop :=
  ∀ p ∈ values, '\x7d' ∉ p.1.toList ∧ '\x7b' ∉ p.2.toList

theorem Suitable.closes {values : List (String × String)} (h : Suitable values)
    {name value : String} (hvalue : values.lookup name = some value) : '\x7d' ∉ name.toList := by
  obtain ⟨before, after, rfl, -⟩ := List.lookup_eq_some_iff.1 hvalue
  exact (h (name, value) (by simp)).1

/-- The passes replace a placeholder by its value, and leave all others as they are. -/
theorem passes_field {values : List (String × String)} (hvalues : Suitable values) {name : String}
    (hname : Braceless name.toList) (cs : List Char) :
    passes values (token name ++ cs) =
      ((values.lookup name).map String.toList).getD (token name) ++ passes values cs := by
  induction values generalizing cs with
  | nil => rfl
  | cons p values ih =>
    obtain ⟨⟨hcloses, hopens⟩, hrest⟩ := List.forall_mem_cons.1 hvalues
    rw [passes_cons, passes_cons]
    by_cases h : name = p.1
    · subst h
      have hfield : token p.1 = field p.1.toList := rfl
      rw [hfield, replace_field, passes_plain hopens, List.lookup_cons, beq_self_eq_true]
      rfl
    · have hfield : token name = field name.toList := rfl
      have hne : p.1.toList ≠ name.toList := fun he => h (String.toList_inj.1 he).symm
      rw [hfield, replace_other hcloses hname hne, List.lookup_cons, beq_eq_false_iff_ne.2 h]
      exact ih hrest _

/-! ### One scan -/

/-- A scan from left to right. Where a placeholder stands, its value is written and the scan goes on
behind the placeholder; every other character is kept. -/
inductive Scanned (value? : String → Option String) : List Char → List Char → Prop
  | done : Scanned value? [] []
  | placeholder {name value : String} {cs out : List Char} (h : value? name = some value)
      (hrest : Scanned value? cs out) : Scanned value? (token name ++ cs) (value.toList ++ out)
  | other {c : Char} {cs out : List Char}
      (h : ∀ name value, value? name = some value → ¬token name <+: c :: cs)
      (hrest : Scanned value? cs out) : Scanned value? (c :: cs) (c :: out)

namespace Scanned

variable {value? : String → Option String} {cs out out' : List Char}

/-- A scan comes to one result only. -/
theorem unique (hnames : ∀ name value, value? name = some value → '\x7d' ∉ name.toList)
    (h : Scanned value? cs out) (h' : Scanned value? cs out') : out = out' := by
  induction h generalizing out' with
  | done =>
    generalize hcs : [] = ds at h'
    cases h' with
    | done => rfl
    | placeholder => cases hcs
    | other => cases hcs
  | @placeholder name value cs out hvalue _ ih =>
    generalize hcs : token name ++ cs = ds at h'
    cases h' with
    | done => cases hcs
    | @placeholder name' value' cs' _ hvalue' hrest' =>
      have hprefix : field name.toList <+: field name'.toList ++ cs' :=
        ⟨cs, hcs⟩
      have hname := (field_leads_iff (hnames _ _ hvalue) (hnames _ _ hvalue')).1 hprefix
      obtain rfl := String.toList_inj.1 hname
      obtain rfl := Option.some.inj (hvalue.symm.trans hvalue')
      rw [ih (List.append_cancel_left hcs ▸ hrest')]
    | other hother => exact absurd (hcs ▸ List.prefix_append _ _) (hother _ _ hvalue)
  | @other c cs out hother _ ih =>
    generalize hcs : c :: cs = ds at h'
    cases h' with
    | done => cases hcs
    | placeholder hvalue => exact absurd (hcs ▸ List.prefix_append _ _) (hother _ _ hvalue)
    | other _ hrest' =>
      obtain ⟨rfl, rfl⟩ := List.cons.inj hcs
      rw [ih hrest']

/-- Text that opens no brace is kept. -/
theorem plain (h : Scanned value? cs out) {as : List Char} (has : '\x7b' ∉ as) :
    Scanned value? (as ++ cs) (as ++ out) := by
  induction as with
  | nil => exact h
  | cons a as ih =>
    obtain ⟨ha, has⟩ := not_or.1 (List.mem_cons.not.1 has)
    exact .other (fun name _ _ => not_field_leads_of_ne (Ne.symm ha)) (ih has)

/-- Text that closes no brace is kept. -/
theorem unclosed {cs : List Char} (hcs : '\x7d' ∉ cs) : Scanned value? cs cs := by
  induction cs with
  | nil => exact .done
  | cons c cs ih =>
    exact .other (fun _ _ _ => not_field_leads_of_unclosed hcs)
      (ih (List.not_mem_of_not_mem_cons hcs))

end Scanned

/-! ### Templates in which no brace stands open inside another -/

/-- Before a brace that closes, no brace opens inside an open one. -/
def Unnested (cs : List Char) : Prop :=
  ∀ l < cs.length, cs[l]? = some '\x7d' → ∀ j < l, cs[j]? = some '\x7b' →
    ∀ i < j, cs[i]? = some '\x7b' → ∃ k < j, i < k ∧ cs[k]? = some '\x7d'

instance (cs : List Char) : Decidable (Unnested cs) :=
  @Nat.decidableBallLT cs.length _ fun l _ =>
    have _ : Decidable (∀ j < l, cs[j]? = some '\x7b' → ∀ i < j, cs[i]? = some '\x7b' →
        ∃ k < j, i < k ∧ cs[k]? = some '\x7d') :=
      @Nat.decidableBallLT l _ fun _ _ => inferInstance
    inferInstance

namespace Unnested

variable {cs : List Char}

theorem of_cons {c : Char} (h : Unnested (c :: cs)) : Unnested cs := by
  intro l hl hl' j hjl hj i hij hi
  obtain ⟨k, hk, hik, hclosed⟩ := h (l + 1) (Nat.succ_lt_succ hl) hl' (j + 1)
    (Nat.succ_lt_succ hjl) hj (i + 1) (Nat.succ_lt_succ hij) hi
  obtain ⟨k, rfl⟩ := Nat.exists_eq_succ_of_ne_zero (show k ≠ 0 by omega)
  exact ⟨k, by omega, by omega, hclosed⟩

theorem of_append {as : List Char} (h : Unnested (as ++ cs)) : Unnested cs := by
  induction as with
  | nil => exact h
  | cons a as ih => exact ih h.of_cons

/-- The first brace to close behind one that opens has no other brace before it. -/
theorem closed {name rest : List Char} (hname : '\x7d' ∉ name)
    (h : Unnested ('\x7b' :: (name ++ '\x7d' :: rest))) : '\x7b' ∉ name := by
  intro hopen
  obtain ⟨j, hj, hopen⟩ := List.mem_iff_getElem.1 hopen
  obtain ⟨k, hk, hpos, hclosed⟩ := h (name.length + 1) (by simp) (by simp) (j + 1) (by omega)
    (by simp [List.getElem?_append_left hj, List.getElem?_eq_getElem hj, hopen]) 0 (by omega) rfl
  obtain ⟨k, rfl⟩ := Nat.exists_eq_succ_of_ne_zero (show k ≠ 0 by omega)
  have hk : k < name.length := by omega
  have hclosed : name[k]? = some '\x7d' := by simpa [List.getElem?_append_left hk] using hclosed
  exact hname (List.mem_of_getElem? hclosed)

/-- A brace that opens comes with a text without braces and one that closes, unless none closes. -/
theorem opened (h : Unnested ('\x7b' :: cs)) :
    (∃ (name : String) (rest : List Char), Braceless name.toList ∧
      '\x7b' :: cs = token name ++ rest) ∨ '\x7d' ∉ '\x7b' :: cs := by
  by_cases hclosed : '\x7d' ∈ cs
  · obtain ⟨name, rest, rfl, hname⟩ := List.eq_append_cons_of_mem hclosed
    refine .inl ⟨String.ofList name, rest, ?_, by simp [token]⟩
    rw [String.toList_ofList]
    exact ⟨h.closed hname, hname⟩
  · exact .inr (by simpa using hclosed)

end Unnested

/-- A placeholder that has a value is replaced by it in the scan, and any other is kept. -/
theorem Scanned.field {values : List (String × String)} (hvalues : Suitable values) {name : String}
    (hname : Braceless name.toList) {cs out : List Char}
    (h : Scanned (values.lookup ·) cs out) :
    Scanned (values.lookup ·) (token name ++ cs)
      (((values.lookup name).map String.toList).getD (token name) ++ out) := by
  cases hvalue : values.lookup name with
  | some value => exact .placeholder hvalue h
  | none =>
    have hplain : '\x7b' ∉ name.toList ++ ['\x7d'] := by simp [hname.opens]
    refine .other (fun name' value hvalue' hprefix => ?_) (h.plain hplain)
    have hsame := (field_leads_iff (hvalues.closes hvalue') hname.closes).1 hprefix
    rw [String.toList_inj.1 hsame, hvalue] at hvalue'
    cases hvalue'

/-- Where no brace stands open inside another, the passes come to what one scan comes to. -/
theorem scanned_passes {values : List (String × String)} (hvalues : Suitable values)
    (cs : List Char) (h : Unnested cs) : Scanned (values.lookup ·) cs (passes values cs) := by
  -- A placeholder is passed over as a whole, so the induction is on the length.
  induction hlength : cs.length using Nat.strongRecOn generalizing cs with
  | ind n ih =>
    subst hlength
    cases cs with
    | nil =>
      rw [passes_nil]
      exact .done
    | cons c cs =>
      by_cases hc : c = '\x7b'
      · subst hc
        rcases h.opened with ⟨name, rest, hname, htoken⟩ | htail
        · have hrest : Unnested rest := (htoken ▸ h).of_append
          have hshorter : rest.length < ('\x7b' :: cs).length := by
            rw [htoken]
            simp [token]
            omega
          rw [htoken, passes_field hvalues hname]
          exact (ih _ hshorter rest hrest rfl).field hvalues hname
        · rw [passes_unclosed htail]
          exact .unclosed htail
      · have hplain : '\x7b' ∉ [c] := by simpa using Ne.symm hc
        have hscan := (ih _ (Nat.lt_succ_self _) cs h.of_cons rfl).plain hplain
        rwa [← passes_plain hplain] at hscan

/-! ### The placeholders of a topology -/

/-- What a name in braces stands for. -/
def valueOf? (spec : TopologySpec) : String → Option String
  | "nodes" => some (Decimal.text spec.params.nodeCount)
  | "faults" => some (Decimal.text spec.params.faultCount)
  | "depth" => some (Decimal.text spec.params.repairDepth)
  | "repair_peers" => some (Decimal.text spec.params.repairPeers)
  | "replication" => some (Decimal.text spec.params.replicationFactor)
  | "payload" => some spec.params.payloadSize
  | "community" => some (if spec.community then "true" else "false")
  | _ => none

/-- The names and their values, in the order of the passes. -/
def values (spec : TopologySpec) : List (String × String) :=
  let p := spec.params
  [("nodes", Decimal.text p.nodeCount), ("faults", Decimal.text p.faultCount),
    ("depth", Decimal.text p.repairDepth), ("repair_peers", Decimal.text p.repairPeers),
    ("replication", Decimal.text p.replicationFactor), ("payload", p.payloadSize),
    ("community", if spec.community then "true" else "false")]

theorem renderChars_eq (spec : TopologySpec) (cs : List Char) :
    renderChars (substitutions spec) cs = passes (values spec) cs := by
  simp [passes, values, substitutions, Decimal.text, boolText]

theorem lookup_values (spec : TopologySpec) (name : String) :
    (values spec).lookup name = valueOf? spec name := by
  unfold valueOf?
  split
  case h_8 =>
    rw [List.lookup_eq_none_iff]
    simp_all [values]
  all_goals simp [values, List.lookup_cons]

theorem suitable_values {spec : TopologySpec} (h : '\x7b' ∉ spec.params.payloadSize.toList) :
    Suitable (values spec) := by
  have hdigits : ∀ n, '\x7b' ∉ (Decimal.text n).toList := by
    intro n hn
    rw [Decimal.text, String.toList_ofList] at hn
    exact absurd (Decimal.isDigit_of_mem_digits hn) (by decide)
  have hbool : ∀ b : Bool, '\x7b' ∉ (if b then "true" else "false").toList := by decide
  simp [Suitable, values, hdigits, hbool, h]

/-- A template is rendered in one scan from left to right, argument by argument: what stands in
braces and has a value is replaced by it, all else is kept, and no text that was inserted is looked
at again. No brace may stand open inside another, and the label of the payload may open none. -/
theorem renders_in_one_scan (argv : List String) (spec : TopologySpec)
    (hargv : ∀ a ∈ argv, Unnested a.toList) (hlabel : '\x7b' ∉ spec.params.payloadSize.toList) :
    (render argv spec).length = argv.length ∧
    List.Forall₂ (fun a r => ∀ out, Scanned (valueOf? spec) a.toList out ↔ out = r.toList)
      argv (render argv spec) := by
  have hvalues := suitable_values hlabel
  refine ⟨length_render argv spec, ?_⟩
  rw [render, List.forall₂_map_right_iff, List.forall₂_same]
  intro a ha out
  have hscan := scanned_passes hvalues a.toList (hargv a ha)
  simp only [lookup_values] at hscan
  rw [← renderChars_eq] at hscan
  rw [String.toList_ofList]
  constructor
  · intro hout
    refine hout.unique (fun name value hvalue => ?_) hscan
    rw [← lookup_values] at hvalue
    exact hvalues.closes hvalue
  · rintro rfl
    exact hscan

/-- Placeholders side by side, one left open and one without a value, and a label that closes a
brace. -/
theorem neighbours_render_in_one_scan :
    Scanned (valueOf? ⟨{ TrialParameters.standard with payloadSize := "nodes\x7d" }, true⟩)
      "\x7bpayload\x7d\x7bnodes\x7d\x7d \x7bother\x7d \x7bdepth".toList
      "nodes\x7d10\x7d \x7bother\x7d \x7bdepth".toList := by
  obtain ⟨-, hscans⟩ := renders_in_one_scan
    ["\x7bpayload\x7d\x7bnodes\x7d\x7d \x7bother\x7d \x7bdepth"]
    ⟨{ TrialParameters.standard with payloadSize := "nodes\x7d" }, true⟩ (by decide) (by decide)
  cases hscans with
  | cons hscan _ => exact (hscan _).2 (by decide)

end Template

end FaultSweep
