import FaultSweep.Proofs.Json.Compact
import FaultSweep.Proofs.Json.Records
import FaultSweep.Proofs.Ledger.RoundTrip

/-!
# Typed values in texts

A type says how its values are written, and how they are read off a node. A text goes through the
scanner and the parser before anything is read, but of what was written each part is found where it
was put. So it is enough to know, part by part, that a reader reads what the writer writes. Texts
that nobody wrote are read as well, in more shapes than are written: what comes of them survives
too, if the reader keeps to the bounds within which values can be written.
-/

namespace FaultSweep.Json

open Document (written)

variable {α : Type} {read : Node → Option α} {v : Json} {a : α} {height : Nat}

/-! ### Parts of a value -/

/-- Off a value that was written this is read, wherever so many levels may still be entered. -/
def Reads (height : Nat) (read : Node → Option α) (v : Json) (a : α) : Prop :=
  ∀ levels, read ⟨levels + height, written v⟩ = some a

theorem reads_text (s : String) : Reads height reader.text? (.str s) s := by
  intro levels
  rw [written]
  rfl

theorem written_nat {n : Nat} (h : n < wordBound) : written (.nat n) = .num (some (.int n)) := by
  have hfits : (Number.int n).Fits := by
    have hword : n < 18446744073709551616 := h
    constructor <;> omega
  rw [nat, written, Number.reread_of_fits hfits]

theorem reads_nat {bound n : Nat} (hn : n < bound) (hbound : bound ≤ wordBound) :
    Reads height (reader.nat? bound) (.nat n) n := by
  intro levels
  rw [written_nat (hn.trans_le hbound)]
  simp [reader, Node.natural?, hn]

theorem reads_count {n : Nat} (h : n < countBound) :
    Reads height (reader.nat? countBound) (.nat n) n :=
  reads_nat h (by decide)

theorem reads_word {n : Nat} (h : n < wordBound) :
    Reads height (reader.nat? wordBound) (.nat n) n :=
  reads_nat h (Nat.le_refl _)

theorem reads_null : Reads height (reader.option read) .null none := by
  intro levels
  rw [written]
  rfl

/-- What can be read where it must be there can be read where it may be missing. -/
theorem Reads.option (h : Reads height read v a) (hv : v ≠ .null) :
    Reads height (reader.option read) v (some a) := by
  intro levels
  have hsome : reader.optional? ⟨levels + height, written v⟩ =
      some (some ⟨levels + height, written v⟩) := by
    cases v <;> simp [written, reader] at hv ⊢
  simp [Reader.option, hsome, h levels]

/-- A number that may be missing, with a null in its place. -/
theorem reads_nullable {bound : Nat} {o : Option Nat} (ho : ∀ n ∈ o, n < bound)
    (hbound : bound ≤ wordBound) :
    Reads height (reader.option (reader.nat? bound)) (.ofOption .nat o) o := by
  cases o with
  | none => exact reads_null
  | some n => exact (reads_nat (ho n rfl) hbound).option nofun

/-- Of a list only its members need to be readable. -/
theorem reads_list {write : α → Json} {as : List α} (h : ∀ a ∈ as, Reads height read (write a) a) :
    Reads (height + 1) (reader.list read) (.arr (as.map write)) as := by
  intro levels
  have hitems : reader.items? ⟨levels + (height + 1), written (.arr (as.map write))⟩ =
      some (as.map fun a => ⟨levels + height, written (write a)⟩) := by
    rw [← Nat.add_assoc]
    simp [reader, Node.items?, written, Document.writtenItems_eq, Function.comp_def]
  have heach : ∀ a ∈ as, read ⟨levels + height, written (write a)⟩ = some a :=
    fun a ha => h a ha levels
  rw [Reader.list, hitems, Option.bind_some, List.mapM_map]
  exact mapM_eq_some_self heach

/-! ### Records -/

/-- The fields of a record that was written, as a reader finds them: each under a name of its
own. -/
structure Found (height : Nat) (fs : List (String × Json)) (nodes : List (String × Node)) :
    Prop where
  nodup : (fs.map (·.1)).Nodup
  place : ∃ levels, nodes = fs.map fun f => (f.1, ⟨levels + height, written f.2⟩)

section Found

variable {fs : List (String × Json)} {nodes : List (String × Node)} {name : String}
  {absent : Option α}

theorem Found.names (h : Found height fs nodes) : nodes.map (·.1) = fs.map (·.1) := by
  obtain ⟨levels, rfl⟩ := h.place
  rw [List.map_map]
  rfl

/-- A field is found under its name. -/
theorem Found.field (h : Found height fs nodes) (hmem : (name, v) ∈ fs)
    (hread : Reads height read v a) : Reader.field nodes name absent read = some a := by
  rw [Reader.field_eq_some_iff (h.names.symm ▸ h.nodup)]
  obtain ⟨levels, rfl⟩ := h.place
  exact .inl ⟨_, List.mem_map.2 ⟨_, hmem, rfl⟩, hread levels⟩

theorem Found.missing (h : Found height fs nodes) (hname : ∀ f ∈ fs, f.1 ≠ name)
    (habsent : absent = some a) : Reader.field nodes name absent read = some a := by
  rw [Reader.field_eq_some_iff (h.names.symm ▸ h.nodup)]
  obtain ⟨levels, rfl⟩ := h.place
  exact .inr ⟨List.forall_mem_map.2 hname, habsent⟩

/-- A record is read from its fields, if they have names that the reader knows. -/
theorem reads_record {names : List String} {build : List (String × Node) → Option α}
    (hnames : (fs.map (·.1)).Sublist names) (hnodup : names.Nodup)
    (hbuild : ∀ nodes, Found height fs nodes → build nodes = some a) :
    Reads (height + 1) (fun n => (reader.fields? names n).bind build) (.obj fs) a := by
  intro levels
  let nodes : List (String × Node) := fs.map fun f => (f.1, ⟨levels + height, written f.2⟩)
  have hfound : Found height fs nodes := ⟨hnodup.sublist hnames, levels, rfl⟩
  have hentries : Node.entries? ⟨levels + height + 1, written (.obj fs)⟩ = some nodes := by
    rw [written, Document.writtenFields_eq]
    exact List.mapM_map.trans List.mapM_pure
  have hknown : ∀ f ∈ nodes, names.contains f.1 = true :=
    List.forall_mem_map.2 fun f hf =>
      List.contains_iff_mem.2 (hnames.subset (List.mem_map_of_mem hf))
  have hselect : Reader.select names nodes = some nodes := by
    rw [Reader.select, List.filter_eq_self.2 hknown, if_pos (hfound.names.symm ▸ hfound.nodup)]
  have hfields : reader.fields? names ⟨levels + height + 1, written (.obj fs)⟩ = some nodes := by
    rw [written] at hentries ⊢
    exact (congrArg (Option.bind · _) hentries).trans hselect
  exact (congrArg (Option.bind · build) hfields).trans (hbuild nodes hfound)

end Found

/-! ### Fields that are left out -/

/-- The fields that are given, of those that may be given. -/
def given (shape : List (String × Option Json)) : List (String × Json) :=
  shape.filterMap fun f => f.2.map (f.1, ·)

section given

variable {shape : List (String × Option Json)} {nodes : List (String × Node)} {name : String}
  {absent : Option α}

theorem mem_given : (name, v) ∈ given shape ↔ (name, some v) ∈ shape := by
  simp only [given, List.mem_filterMap, Option.map_eq_some_iff, Prod.mk.injEq]
  constructor
  · rintro ⟨⟨_, _⟩, hf, _, rfl, rfl, rfl⟩
    exact hf
  · intro h
    exact ⟨_, h, v, rfl, rfl, rfl⟩

theorem names_given (shape : List (String × Option Json)) :
    ((given shape).map (·.1)).Sublist (shape.map (·.1)) := by
  induction shape with
  | nil => exact .slnil
  | cons f shape ih =>
    obtain ⟨name, _ | v⟩ := f
    · exact ih.cons name
    · exact ih.cons_cons name

/-- A field that may be left out is read off what is given, or has what it has where nothing is. -/
theorem Found.optional {o : Option Json} (h : Found height (given shape) nodes)
    (hnodup : (shape.map (·.1)).Nodup) (hmem : (name, o) ∈ shape)
    (hsome : ∀ v ∈ o, Reads height read v a) (hnone : o = none → absent = some a) :
    Reader.field nodes name absent read = some a := by
  cases o with
  | some v => exact h.field (mem_given.2 hmem) (hsome v rfl)
  | none =>
    refine h.missing (fun f hf hname => ?_) (hnone rfl)
    have hgiven : (name, some f.2) ∈ shape := mem_given.1 (hname ▸ hf)
    cases List.inj_on_of_nodup_map hnodup hmem hgiven rfl

theorem Found.optional_nat {bound : Nat} {o : Option Nat} (h : Found height (given shape) nodes)
    (hnodup : (shape.map (·.1)).Nodup) (hmem : (name, o.map .nat) ∈ shape)
    (ho : ∀ n ∈ o, n < bound) (hbound : bound ≤ wordBound) :
    Reader.field nodes name (some none) (reader.option (reader.nat? bound)) = some o := by
  refine h.optional hnodup hmem (fun v hv => ?_) fun hnone => ?_
  · obtain ⟨n, rfl, rfl⟩ := Option.map_eq_some_iff.1 hv
    exact (reads_nat (ho n rfl) hbound).option nofun
  · rw [Option.map_eq_none_iff.1 hnone]

end given

/-! ### Whole texts -/

/-- What a text is read as. -/
def decode? (read : Node → Option α) (text : String) : Option α :=
  (Document.parse? text).bind fun d => read (.top d)

/-- The values within the bounds are those that texts are read as, and each of them is read from the
text that is written for it. So whatever a text was read as, writing and reading that changes
nothing. -/
structure Faithful (write : α → Json) (read : Node → Option α) (Within : α → Prop) : Prop where
  reread : ∀ a, Within a → decode? read (write a).compact = some a
  within : ∀ text a, decode? read text = some a → Within a
  settled : ∀ text a, decode? read text = some a → decode? read (write a).compact = some a

theorem faithful_of_reads {write : α → Json} {Within : α → Prop} (hheight : height ≤ maxLevels)
    (hreads : ∀ a, Within a → Reads height read (write a) a)
    (hwithin : ∀ n a, read n = some a → Within a) : Faithful write read Within := by
  obtain ⟨levels, hlevels⟩ := Nat.exists_eq_add_of_le' hheight
  have hreread : ∀ a, Within a → decode? read (write a).compact = some a := by
    intro a ha
    rw [decode?, Document.parse?_compact, Option.bind_some, Node.top, hlevels]
    exact hreads a ha levels
  have hread : ∀ text a, decode? read text = some a → Within a := by
    intro text a h
    obtain ⟨d, -, hd⟩ := Option.bind_eq_some_iff.1 h
    exact hwithin (.top d) a hd
  exact ⟨hreread, hread, fun text a h => hreread a (hread text a h)⟩

end FaultSweep.Json
