import FaultSweep.Json.Reader
import FaultSweep.Proofs.Json.Reading

/-!
# Records of one field

A record of one field is an object, which may have other fields too, or an array of that field
alone. The field may be missing from either. The fields of a value that was read from a text have
different names, so that there is one field of the name at most.
-/

namespace FaultSweep

namespace Reader

variable {ν α : Type} {fields : List (String × ν)} {name : String} {absent : Option α}
  {read : ν → Option α}

/-- Of fields that are given once, one can be read among the others or alone. -/
theorem field_select (h : (fields.map (·.1)).Nodup) :
    ((select [name] fields).bind fun fs => field fs name absent read) =
      field fields name absent read := by
  have hknown : ((fields.filter fun f => [name].contains f.1).map (·.1)).Nodup :=
    h.sublist (List.filter_sublist.map _)
  have hfind : (fields.filter fun f => [name].contains f.1).find? (·.1 = name) =
      fields.find? (·.1 = name) := by
    rw [List.find?_filter]
    congr 1
    funext f
    simp
  rw [select, if_pos hknown, Option.bind_some, field, hfind, field]

theorem field_eq_some_iff (h : (fields.map (·.1)).Nodup) {a : α} :
    field fields name absent read = some a ↔
      (∃ n, (name, n) ∈ fields ∧ read n = some a) ∨
        (∀ f ∈ fields, f.1 ≠ name) ∧ absent = some a := by
  rw [field]
  split
  · next f hf =>
    have hmem := List.mem_of_find?_eq_some hf
    have hname : f.1 = name := by simpa using List.find?_some hf
    subst hname
    constructor
    · exact fun ha => .inl ⟨f.2, hmem, ha⟩
    · rintro (⟨n, hn, ha⟩ | ⟨hother, -⟩)
      · have hf : f = (f.1, n) := List.inj_on_of_nodup_map h hmem hn rfl
        rwa [hf]
      · exact absurd rfl (hother f hmem)
  · next hnone =>
    have hother : ∀ f ∈ fields, f.1 ≠ name := by simpa using hnone
    constructor
    · exact fun ha => .inr ⟨hother, ha⟩
    · rintro (⟨n, hn, -⟩ | ⟨-, ha⟩)
      · exact absurd rfl (hother _ hn)
      · exact ha

end Reader

namespace Json

/-! ### Values that were read -/

/-- A value that was read from a text. -/
def Parsed (v : Json) : Prop := ∃ levels d, Document.value? levels d = some v

theorem Parsed.of_body {body : Utf8.Bytes} {v : Json}
    (h : (Utf8.decode? body).bind parse? = some v) : v.Parsed := by
  obtain ⟨text, -, htext⟩ := Option.bind_eq_some_iff.1 h
  obtain ⟨d, -, hd⟩ := Option.bind_eq_some_iff.1 htext
  exact ⟨_, d, hd⟩

theorem parsed_of_values? {ds : List Document} {levels : Nat} {vs : List Json}
    (h : Document.values? levels ds = some vs) : ∀ v ∈ vs, v.Parsed := by
  induction ds generalizing vs with
  | nil =>
    cases h
    exact List.forall_mem_nil _
  | cons d ds ih =>
    simp only [Document.values?, Option.bind_eq_bind, Option.bind_eq_some_iff, Option.pure_def,
      Option.some.injEq] at h
    obtain ⟨v, hv, vs, hvs, rfl⟩ := h
    exact List.forall_mem_cons.2 ⟨⟨levels, d, hv⟩, ih hvs⟩

theorem parsed_of_entries? {fs : List (Option String × Document)} {levels : Nat}
    {es : List (String × Json)} (h : Document.entries? levels fs = some es) :
    ∀ e ∈ es, e.2.Parsed := by
  induction fs generalizing es with
  | nil =>
    cases h
    exact List.forall_mem_nil _
  | cons f fs ih =>
    obtain ⟨k, d⟩ := f
    simp only [Document.entries?, Option.bind_eq_bind, Option.bind_eq_some_iff, Option.pure_def,
      Option.some.injEq] at h
    obtain ⟨k, -, v, hv, es, hes, rfl⟩ := h
    exact List.forall_mem_cons.2 ⟨⟨levels, d, hv⟩, ih hes⟩

/-- The fields of an object that was read are in key order, and were read themselves. -/
theorem Parsed.fields {fields : List (String × Json)} (h : (obj fields).Parsed) :
    fields.Pairwise (fun a b => a.1 < b.1) ∧ ∀ f ∈ fields, f.2.Parsed := by
  obtain ⟨levels, d, hd⟩ := h
  cases d with
  | obj fs =>
    cases levels with
    | zero => cases hd
    | succ levels =>
      rw [Document.value?, Option.map_eq_some_iff] at hd
      obtain ⟨es, hes, hobj⟩ := hd
      obtain rfl := Json.obj.inj hobj
      exact ⟨(SortedMap.ofList es).sorted,
        fun e he => parsed_of_entries? hes e (SortedMap.mem_ofList he)⟩
  | _ => cases levels <;> simp [Document.value?] at hd

theorem Parsed.items {items : List Json} (h : (arr items).Parsed) : ∀ v ∈ items, v.Parsed := by
  obtain ⟨levels, d, hd⟩ := h
  cases d with
  | arr ds =>
    cases levels with
    | zero => cases hd
    | succ levels =>
      rw [Document.value?, Option.map_eq_some_iff] at hd
      obtain ⟨vs, hvs, harr⟩ := hd
      obtain rfl := Json.arr.inj harr
      exact parsed_of_values? hvs
  | _ => cases levels <;> simp [Document.value?] at hd

theorem Parsed.nodup_names {fields : List (String × Json)} (h : (obj fields).Parsed) :
    (fields.map (·.1)).Nodup :=
  List.pairwise_map.2 (h.fields.1.imp fun hab => String.ne_of_lt hab)

/-! ### Records of one field -/

/-- What a record of one field has in it, if anything. -/
inductive Lone (name : String) : Json → Option Json → Prop
  | given {fields : List (String × Json)} {x : Json} (h : (name, x) ∈ fields) :
      Lone name (.obj fields) (some x)
  | missing {fields : List (String × Json)} (h : ∀ f ∈ fields, f.1 ≠ name) :
      Lone name (.obj fields) none
  | item (x : Json) : Lone name (.arr [x]) (some x)
  | empty : Lone name (.arr []) none

theorem Lone.depth_lt {name : String} {v x : Json} (h : Lone name v (some x)) :
    x.depth < v.depth := by
  cases h with
  | given h =>
    rw [depth_obj]
    exact Nat.lt_succ_of_le (depthFields_le.1 (Nat.le_refl _) _ h)
  | item =>
    rw [depth_arr]
    exact Nat.lt_succ_of_le (depthItems_le.1 (Nat.le_refl _) _ (List.mem_singleton_self x))

theorem Lone.parsed {name : String} {v x : Json} (h : Lone name v (some x)) (hv : v.Parsed) :
    x.Parsed := by
  cases h with
  | given h => exact hv.fields.2 _ h
  | item => exact hv.items _ (List.mem_singleton_self x)

/-! ### How they are read -/

theorem Document.ofFields_eq (fields : List (String × Json)) :
    ofFields fields = fields.map fun f => (some f.1, ofJson f.2) := by
  induction fields with
  | nil => rfl
  | cons f fields ih => rw [ofFields, ih, List.map_cons]

namespace Node

theorem entries?_ofJson (k : Nat) (fields : List (String × Json)) :
    entries? ⟨k + 1, .ofJson (.obj fields)⟩ =
      some (fields.map fun f => (f.1, ⟨k, .ofJson f.2⟩)) := by
  rw [Document.ofJson, Document.ofFields_eq]
  exact List.mapM_map.trans List.mapM_pure

section

variable {α : Type} {name : String} {absent : Option α} {read : Node → Option α} {a : α}

theorem field_ofJson_obj {fields : List (String × Json)} (hv : (obj fields).Parsed) (k : Nat) :
    ((reader.fields? [name] ⟨k + 1, .ofJson (.obj fields)⟩).bind fun fs =>
      Reader.field fs name absent read) = some a ↔
      (∃ x, (name, x) ∈ fields ∧ read ⟨k, .ofJson x⟩ = some a) ∨
        (∀ f ∈ fields, f.1 ≠ name) ∧ absent = some a := by
  have hnames : ((fields.map fun f => (f.1, (⟨k, .ofJson f.2⟩ : Node))).map (·.1)).Nodup := by
    simpa [List.map_map, Function.comp_def] using hv.nodup_names
  have hread : reader.fields? [name] ⟨k + 1, .ofJson (.obj fields)⟩ =
      Reader.select [name] (fields.map fun f => (f.1, ⟨k, .ofJson f.2⟩)) := by
    have hentries := entries?_ofJson k fields
    rw [Document.ofJson] at hentries ⊢
    exact congrArg (Option.bind · _) hentries
  rw [hread, Reader.field_select hnames, Reader.field_eq_some_iff hnames, List.forall_mem_map]
  refine or_congr_left ⟨?_, ?_⟩
  · rintro ⟨n, hn, ha⟩
    obtain ⟨f, hf, hfn⟩ := List.mem_map.1 hn
    obtain ⟨rfl, rfl⟩ := Prod.mk.inj hfn
    exact ⟨f.2, hf, ha⟩
  · rintro ⟨x, hx, ha⟩
    exact ⟨_, List.mem_map.2 ⟨_, hx, rfl⟩, ha⟩

theorem field_ofJson_item (k : Nat) (x : Json) :
    ((reader.fields? [name] ⟨k + 1, .ofJson (.arr [x])⟩).bind fun fs =>
      Reader.field fs name absent read) = read ⟨k, .ofJson x⟩ := by
  have hread : reader.fields? [name] ⟨k + 1, .ofJson (.arr [x])⟩ =
      some [(name, ⟨k, .ofJson x⟩)] := rfl
  simp [hread, Reader.field]

/-- A record of one field is read off what it has in it, or as one without the field. -/
theorem field_ofJson {v : Json} (hv : v.Parsed) (k : Nat) :
    ((reader.fields? [name] ⟨k + 1, .ofJson v⟩).bind fun fs =>
      Reader.field fs name absent read) = some a ↔
      (∃ x, Lone name v (some x) ∧ read ⟨k, .ofJson x⟩ = some a) ∨
        Lone name v none ∧ absent = some a := by
  constructor
  · intro h
    match v with
    | .obj fields =>
      exact ((field_ofJson_obj hv k).1 h).imp (fun ⟨x, hx, ha⟩ => ⟨x, .given hx, ha⟩)
        (fun ⟨hother, ha⟩ => ⟨.missing hother, ha⟩)
    | .arr [] => exact .inr ⟨.empty, h⟩
    | .arr [x] => exact .inl ⟨x, .item x, by rwa [field_ofJson_item] at h⟩
    | .arr (_ :: _ :: _) | .null | .bool _ | .num _ | .str _ => cases h
  · rintro (⟨x, hx, ha⟩ | ⟨hx, ha⟩)
    · cases hx with
      | given hx => exact (field_ofJson_obj hv k).2 (.inl ⟨x, hx, ha⟩)
      | item => rwa [field_ofJson_item]
    · cases hx with
      | missing hother => exact (field_ofJson_obj hv k).2 (.inr ⟨hother, ha⟩)
      | empty => exact ha

end

theorem text?_ofJson (k : Nat) {v : Json} {s : String} :
    reader.text? ⟨k, .ofJson v⟩ = some s ↔ v = .str s := by
  cases v <;> simp [reader, Document.ofJson]

end Node

end Json

end FaultSweep
