import FaultSweep.Gateway.Operations
import FaultSweep.Proofs.Json.Typed
import FaultSweep.Proofs.Plan.Words
import FaultSweep.Trial.Settings

/-!
# Parts of a plan as texts

Parameters, timings, payloads and axes, and the repairs that are asked for, are written with all
their fields, an axis without those it does not have. They are read in more shapes: fields in any
order and among others, or an array of them, with defaults for what is missing. Whatever shape such
a part was given in, once it is read it is not changed by being written and read again.
-/

namespace FaultSweep

open Json (Reads Faithful)

variable {ν : Type} {r : Reader ν} {n : ν} {height : Nat}

theorem Json.bounded_reader : Json.reader.Bounded := by
  intro bound n k h
  obtain ⟨m, -, hm⟩ := Option.bind_eq_some_iff.1 h
  split_ifs at hm with hlt
  cases hm
  exact hlt

/-! ### Records with a default for every field -/

namespace TrialParameters

/-- All counts are words of 32 bits. -/
structure Bounded (p : TrialParameters) : Prop where
  nodes : p.nodeCount < countBound
  faults : p.faultCount < countBound
  depth : p.repairDepth < countBound
  peers : p.repairPeers < countBound
  factor : p.replicationFactor < countBound

theorem bounded_standard : standard.Bounded := by
  constructor <;> decide

theorem bounded_of_read (hr : r.Bounded) {p : TrialParameters} (h : read r n = some p) :
    p.Bounded := by
  simp only [read, Option.bind_eq_bind, Option.bind_eq_some_iff, Option.pure_def,
    Option.some.injEq] at h
  obtain ⟨fs, -, nodes, hnodes, faults, hfaults, depth, hdepth, peers, hpeers, factor, hfactor,
    size, -, rfl⟩ := h
  exact ⟨Reader.field_default_lt hr bounded_standard.nodes hnodes,
    Reader.field_default_lt hr bounded_standard.faults hfaults,
    Reader.field_default_lt hr bounded_standard.depth hdepth,
    Reader.field_default_lt hr bounded_standard.peers hpeers,
    Reader.field_default_lt hr bounded_standard.factor hfactor⟩

theorem reads_toJson {p : TrialParameters} (h : p.Bounded) :
    Reads 1 (read Json.reader) p.toJson p := by
  refine Json.reads_record (List.Sublist.refl _) (by decide) fun nodes hfs => ?_
  simp only [Option.bind_eq_bind, Option.bind_eq_some_iff, Option.pure_def, Option.some.injEq]
  exact ⟨_, hfs.field (by simp) (Json.reads_count h.nodes),
    _, hfs.field (by simp) (Json.reads_count h.faults),
    _, hfs.field (by simp) (Json.reads_count h.depth),
    _, hfs.field (by simp) (Json.reads_count h.peers),
    _, hfs.field (by simp) (Json.reads_count h.factor),
    _, hfs.field (by simp) (Json.reads_text p.payloadSize), rfl⟩

end TrialParameters

namespace Timings

/-- All waits are words of 64 bits. -/
structure Bounded (t : Timings) : Prop where
  warmup : t.warmup < wordBound
  poll : t.pollInterval < wordBound
  pin : t.pinTimeout < wordBound
  settle : t.settle < wordBound
  discovery : t.discoveryTimeout < wordBound
  repair : t.repairTimeout < wordBound

theorem bounded_standard : standard.Bounded := by
  constructor <;> decide

theorem bounded_of_read (hr : r.Bounded) {t : Timings} (h : read r n = some t) : t.Bounded := by
  simp only [read, Option.bind_eq_bind, Option.bind_eq_some_iff, Option.pure_def,
    Option.some.injEq] at h
  obtain ⟨fs, -, warmup, hwarmup, poll, hpoll, pin, hpin, settle, hsettle, discovery, hdiscovery,
    repair, hrepair, rfl⟩ := h
  exact ⟨Reader.field_default_lt hr bounded_standard.warmup hwarmup,
    Reader.field_default_lt hr bounded_standard.poll hpoll,
    Reader.field_default_lt hr bounded_standard.pin hpin,
    Reader.field_default_lt hr bounded_standard.settle hsettle,
    Reader.field_default_lt hr bounded_standard.discovery hdiscovery,
    Reader.field_default_lt hr bounded_standard.repair hrepair⟩

theorem reads_toJson {t : Timings} (h : t.Bounded) : Reads 1 (read Json.reader) t.toJson t := by
  refine Json.reads_record (List.Sublist.refl _) (by decide) fun nodes hfs => ?_
  simp only [Option.bind_eq_bind, Option.bind_eq_some_iff, Option.pure_def, Option.some.injEq]
  exact ⟨_, hfs.field (by simp) (Json.reads_word h.warmup),
    _, hfs.field (by simp) (Json.reads_word h.poll),
    _, hfs.field (by simp) (Json.reads_word h.pin),
    _, hfs.field (by simp) (Json.reads_word h.settle),
    _, hfs.field (by simp) (Json.reads_word h.discovery),
    _, hfs.field (by simp) (Json.reads_word h.repair), rfl⟩

end Timings

namespace ErasureParams

/-- All counts are words of 32 bits. -/
structure Bounded (e : ErasureParams) : Prop where
  alpha : e.alpha < countBound
  s : e.s < countBound
  p : e.p < countBound

theorem bounded_standard : standard.Bounded := by
  constructor <;> decide

theorem bounded_of_read (hr : r.Bounded) {e : ErasureParams} (h : read r n = some e) :
    e.Bounded := by
  simp only [read, Option.bind_eq_bind, Option.bind_eq_some_iff, Option.pure_def,
    Option.some.injEq] at h
  obtain ⟨fs, -, alpha, halpha, s, hs, p, hp, rfl⟩ := h
  exact ⟨Reader.field_default_lt hr bounded_standard.alpha halpha,
    Reader.field_default_lt hr bounded_standard.s hs,
    Reader.field_default_lt hr bounded_standard.p hp⟩

theorem reads_toJson {e : ErasureParams} (h : e.Bounded) :
    Reads 1 (read Json.reader) e.toJson e := by
  refine Json.reads_record (List.Sublist.refl _) (by decide) fun nodes hfs => ?_
  simp only [Option.bind_eq_bind, Option.bind_eq_some_iff, Option.pure_def, Option.some.injEq]
  exact ⟨_, hfs.field (by simp [fields]) (Json.reads_count h.alpha),
    _, hfs.field (by simp [fields]) (Json.reads_count h.s),
    _, hfs.field (by simp [fields]) (Json.reads_count h.p), rfl⟩

end ErasureParams

theorem NodeNaming.reads_toJson (m : NodeNaming) : Reads 1 (read Json.reader) m.toJson m := by
  refine Json.reads_record (List.Sublist.refl _) (by decide) fun nodes hfs => ?_
  simp only [Option.bind_eq_bind, Option.bind_eq_some_iff, Option.pure_def, Option.some.injEq]
  exact ⟨_, hfs.field (by simp) (Json.reads_text m.storage),
    _, hfs.field (by simp) (Json.reads_text m.overlay),
    _, hfs.field (by simp) (Json.reads_text m.cluster), rfl⟩

/-! ### Records with fields that must be given -/

namespace PayloadSpec

/-- The number of blocks, if it is known, is a word of 64 bits. -/
def Bounded (p : PayloadSpec) : Prop := ∀ k ∈ p.totalBlocks, k < wordBound

theorem bounded_of_read (hr : r.Bounded) {p : PayloadSpec} (h : read r n = some p) : p.Bounded := by
  simp only [read, Option.bind_eq_bind, Option.bind_eq_some_iff, Option.pure_def,
    Option.some.injEq] at h
  obtain ⟨fs, -, path, -, file, -, description, -, blocks, hblocks, rfl⟩ := h
  exact Reader.field_option_lt hr hblocks

theorem reads_toJson {p : PayloadSpec} (h : p.Bounded) : Reads 1 (read Json.reader) p.toJson p := by
  refine Json.reads_record (List.Sublist.refl _) (by decide) fun nodes hfs => ?_
  simp only [Option.bind_eq_bind, Option.bind_eq_some_iff, Option.pure_def, Option.some.injEq]
  exact ⟨_, hfs.field (by simp) (Json.reads_text p.path),
    _, hfs.field (by simp) (Json.reads_text p.fileCid),
    _, hfs.field (by simp) (Json.reads_text p.metaCid),
    _, hfs.field (by simp) (Json.reads_nullable h (Nat.le_refl _)), rfl⟩

end PayloadSpec

namespace RepairRequest

/-- Both counts are words of 32 bits. -/
structure Bounded (q : RepairRequest) : Prop where
  depth : q.depth < countBound
  peers : q.numPeers < countBound

theorem bounded_of_read (hr : r.Bounded) {q : RepairRequest} (h : read r n = some q) :
    q.Bounded := by
  simp only [read, Option.bind_eq_bind, Option.bind_eq_some_iff, Option.pure_def,
    Option.some.injEq] at h
  obtain ⟨fs, -, file, -, description, -, depth, hdepth, origin, -, peers, hpeers, rfl⟩ := h
  exact ⟨Reader.field_lt hr hdepth, Reader.field_lt hr hpeers⟩

theorem reads_toJson {q : RepairRequest} (h : q.Bounded) :
    Reads 1 (read Json.reader) q.toJson q := by
  refine Json.reads_record (List.Sublist.refl _) (by decide) fun nodes hfs => ?_
  simp only [Option.bind_eq_bind, Option.bind_eq_some_iff, Option.pure_def, Option.some.injEq]
  exact ⟨_, hfs.field (by simp) (Json.reads_text q.fileCid),
    _, hfs.field (by simp) (Json.reads_text q.metaCid),
    _, hfs.field (by simp) (Json.reads_count h.depth),
    _, hfs.field (by simp) (Json.reads_text q.origin),
    _, hfs.field (by simp) (Json.reads_count h.peers), rfl⟩

end RepairRequest

/-! ### Axes -/

theorem Dimension.reads_toJson (d : Dimension) : Reads height (read Json.reader) d.toJson d := by
  intro levels
  cases d <;> rfl

/-- Which of the two a value is can be told from its text. -/
theorem DimensionValue.reads_toJson {v : DimensionValue} (h : v.IsWord) :
    Reads height (read Json.reader) v.toJson v := by
  intro levels
  cases v with
  | count k =>
    have hk : k < countBound := h k rfl
    have hword : k < wordBound := hk.trans (by decide)
    simp [toJson, read, Json.written_nat hword, Json.reader, Json.Node.natural?, hk]
  | label s => simp [toJson, read, Json.Document.written, Json.reader]

namespace Axis

/-- All counts are words of 32 bits. -/
structure Bounded (a : Axis) : Prop extends a.Words where
  start : ∀ k ∈ a.start, k < countBound
  below : ∀ k ∈ a.stopBelowNodes, k < countBound
  step : ∀ k ∈ a.step, k < countBound

theorem bounded_of_read (hr : r.Bounded) {a : Axis} (h : read r n = some a) : a.Bounded := by
  have hwords := words_of_read hr h
  simp only [read, Option.bind_eq_bind, Option.bind_eq_some_iff, Option.pure_def,
    Option.some.injEq] at h
  obtain ⟨fs, -, dimension, -, values, -, start, hstart, stop, -, below, hbelow, step, hstep,
    rfl⟩ := h
  exact ⟨hwords, Reader.field_option_lt hr hstart, Reader.field_option_lt hr hbelow,
    Reader.field_option_lt hr hstep⟩

/-- The values of an axis, if it has any. -/
def listed (a : Axis) : Option Json :=
  if a.values = [] then none else some (.arr (a.values.map DimensionValue.toJson))

/-- The fields that an axis may have. -/
def shape (a : Axis) : List (String × Option Json) :=
  [("dimension", some a.dimension.toJson), ("values", a.listed), ("start", a.start.map .nat),
    ("end", a.stop.map .nat), ("end_below_nodes", a.stopBelowNodes.map .nat),
    ("step", a.step.map .nat)]

theorem toJson_eq (a : Axis) : a.toJson = .obj (Json.given a.shape) := by
  obtain ⟨d, vs, start, stop, below, step⟩ := a
  cases vs <;> cases start <;> cases stop <;> cases below <;> cases step <;> rfl

theorem reads_toJson {a : Axis} (h : a.Bounded) : Reads 2 (read Json.reader) a.toJson a := by
  rw [toJson_eq]
  refine Json.reads_record (Json.names_given _) (by decide) fun nodes hfs => ?_
  have hnodup : (a.shape.map (·.1)).Nodup := by
    show fieldNames.Nodup
    decide
  have hvalues : ∀ v ∈ a.listed,
      Reads 1 (Json.reader.list (DimensionValue.read Json.reader)) v a.values := by
    intro v hv
    unfold listed at hv
    split_ifs at hv
    · cases hv
    · obtain rfl := Option.some.inj hv
      exact Json.reads_list fun v hv => DimensionValue.reads_toJson (h.values v hv)
  -- An empty list is left out, and where none is given an empty one is read.
  have hempty : a.listed = none → some [] = some a.values := by
    intro hnone
    unfold listed at hnone
    split_ifs at hnone with hnil
    rw [hnil]
  simp only [Option.bind_eq_bind, Option.bind_eq_some_iff, Option.pure_def, Option.some.injEq]
  exact ⟨_, hfs.field (Json.mem_given.2 (by simp [shape])) a.dimension.reads_toJson,
    _, hfs.optional hnodup (by simp [shape]) hvalues hempty,
    _, hfs.optional_nat hnodup (by simp [shape]) h.start (by decide),
    _, hfs.optional_nat hnodup (by simp [shape]) h.stop (by decide),
    _, hfs.optional_nat hnodup (by simp [shape]) h.below (by decide),
    _, hfs.optional_nat hnodup (by simp [shape]) h.step (by decide), rfl⟩

end Axis

/-! ### All of them -/

/-- Each of these types is read again from the text that is written for it, and whatever text it was
read from is as good as that one. -/
theorem parts_survive_text :
    Faithful TrialParameters.toJson (TrialParameters.read Json.reader) TrialParameters.Bounded ∧
    Faithful Timings.toJson (Timings.read Json.reader) Timings.Bounded ∧
    Faithful ErasureParams.toJson (ErasureParams.read Json.reader) ErasureParams.Bounded ∧
    Faithful NodeNaming.toJson (NodeNaming.read Json.reader) (fun _ => True) ∧
    Faithful PayloadSpec.toJson (PayloadSpec.read Json.reader) PayloadSpec.Bounded ∧
    Faithful Axis.toJson (Axis.read Json.reader) Axis.Bounded ∧
    Faithful DimensionValue.toJson (DimensionValue.read Json.reader) DimensionValue.IsWord ∧
    Faithful RepairRequest.toJson (RepairRequest.read Json.reader) RepairRequest.Bounded := by
  have hr := Json.bounded_reader
  refine ⟨?_, ?_, ?_, ?_, ?_, ?_, ?_, ?_⟩
  · exact Json.faithful_of_reads (by decide) (fun _ => TrialParameters.reads_toJson)
      fun _ _ => TrialParameters.bounded_of_read hr
  · exact Json.faithful_of_reads (by decide) (fun _ => Timings.reads_toJson)
      fun _ _ => Timings.bounded_of_read hr
  · exact Json.faithful_of_reads (by decide) (fun _ => ErasureParams.reads_toJson)
      fun _ _ => ErasureParams.bounded_of_read hr
  · exact Json.faithful_of_reads (by decide) (fun m _ => m.reads_toJson) fun _ _ _ => trivial
  · exact Json.faithful_of_reads (by decide) (fun _ => PayloadSpec.reads_toJson)
      fun _ _ => PayloadSpec.bounded_of_read hr
  · exact Json.faithful_of_reads (by decide) (fun _ => Axis.reads_toJson)
      fun _ _ => Axis.bounded_of_read hr
  · exact Json.faithful_of_reads (Nat.zero_le _) (fun _ => DimensionValue.reads_toJson)
      fun _ _ => DimensionValue.isWord_of_read
  · exact Json.faithful_of_reads (by decide) (fun _ => RepairRequest.reads_toJson)
      fun _ _ => RepairRequest.bounded_of_read hr

/-- An axis in the shape it is written in; with its fields in another order, among others, some of
them null; with a list that is empty and a case that is an object; and as an array. -/
def axisTexts : List String :=
  ["\x7b\x22dimension\x22:\x22fault_count\x22,\x22start\x22:1,\x22end_below_nodes\x22:1\x7d",
    "\x7b\x22step\x22:null,\x22note\x22:[1.5],\x22end_below_nodes\x22:1,\x22end\x22:null," ++
      "\x22start\x22:1,\x22dimension\x22:\x22fault_count\x22\x7d",
    "\x7b\x22end_below_nodes\x22:1,\x22start\x22:1,\x22values\x22:[]," ++
      "\x22dimension\x22:\x7b\x22fault_count\x22:null\x7d\x7d",
    "[\x22fault_count\x22, [], 1, null, 1]"]

/-- The axis of the four texts. It is written as the first, so that is read again whichever of them
it was read from. -/
theorem axis_survives_four_shapes :
    ∃ a : Axis, a.toJson.compact ∈ axisTexts ∧
      (∀ text ∈ axisTexts, Json.decode? (Axis.read Json.reader) text = some a) ∧
      Json.decode? (Axis.read Json.reader) a.toJson.compact = some a := by
  have hread : ∀ text ∈ axisTexts, Json.decode? (Axis.read Json.reader) text =
      some ⟨.faultCount, [], some 1, none, some 1, none⟩ := by
    decide +kernel
  obtain ⟨-, -, -, -, -, haxis, -⟩ := parts_survive_text
  have harray : axisTexts.getLast (by decide) ∈ axisTexts := List.getLast_mem _
  exact ⟨_, by decide +kernel, hread, haxis.settled _ _ (hread _ harray)⟩

end FaultSweep
