import FaultSweep.Proofs.Plan.Choices
import FaultSweep.Proofs.SortedMap

/-!
# The plans that are accepted

What a plan has to be is said here without the order of the checks, and of its cells without the
expansion of the grid. A plan is accepted exactly if it is so. If it is not, the report has one line
for each thing that is wrong with the settings, an axis or a value; only if there is none of these,
it has one for each cell that cannot be run and for each payload that is missing.
-/

namespace FaultSweep.SweepPlan

structure Sound (p : SweepPlan) : Prop where
  target : 1 ≤ p.target
  poll_interval : 1 ≤ p.timings.pollInterval
  storage_command : p.storage.command ≠ []
  compose_command : p.topology.composeCommand ≠ []
  docker_command : p.topology.dockerCommand ≠ []
  distinct : (p.grid.map Axis.dimension).Nodup
  axes : ∀ a ∈ p.grid, a.Sound
  some_cell : ∃ is es q, p.Picks is es q
  nodes : ∀ {is es q}, p.Picks is es q → 2 ≤ q.nodeCount
  faults : ∀ {is es q}, p.Picks is es q → q.faultCount ≤ q.nodeCount - 1
  payloads : ∀ {is es q}, p.Picks is es q → p.payloads.contains q.payloadSize = true

/-- Where something can be wrong with a plan. -/
inductive Spot where
  | settings
  /-- An axis as a whole, or the value at some place of its list. -/
  | axis (i : Nat) (j : Option Nat)
  | grid
  /-- The cell at some places of the axes. -/
  | cell (is : List Nat)
  | payload (size : String)

/-- What is wrong with the settings and the axes. -/
inductive Flaw (p : SweepPlan) : Spot → Problem → Prop where
  | zeroTarget : p.target = 0 → Flaw p .settings .zeroTarget
  | zeroPollInterval : p.timings.pollInterval = 0 → Flaw p .settings .zeroPollInterval
  | noStorageCommand : p.storage.command = [] → Flaw p .settings .noStorageCommand
  | noComposeCommand : p.topology.composeCommand = [] → Flaw p .settings .noComposeCommand
  | noDockerCommand : p.topology.dockerCommand = [] → Flaw p .settings .noDockerCommand
  | repeatedAxis {i a} : p.grid[i]? = some a → a.dimension ∈ (p.grid.take i).map Axis.dimension →
      Flaw p (.axis i none) (.repeatedAxis a.dimension)
  | axis {i a j f} : p.grid[i]? = some a → a.Flaw j f →
      Flaw p (.axis i j) (.axis a.dimension f)

/-- What is wrong with the cells of axes that are sound. -/
inductive GridFlaw (p : SweepPlan) : Spot → Problem → Prop where
  | noCells : (∀ is es q, ¬p.Picks is es q) → GridFlaw p .grid .noCells
  | fewNodes {is es q} : p.Picks is es q → q.nodeCount < 2 →
      GridFlaw p (.cell is) (.fewNodes ⟨es⟩)
  | manyFaults {is es q} : p.Picks is es q → 2 ≤ q.nodeCount →
      q.nodeCount - 1 < q.faultCount →
      GridFlaw p (.cell is) (.manyFaults ⟨es⟩ q.faultCount q.nodeCount)
  | noPayload {is es q} : p.Picks is es q → p.payloads.contains q.payloadSize = false →
      GridFlaw p (.payload q.payloadSize) (.noPayload q.payloadSize)

variable {p : SweepPlan}

/-! ### The settings and the axes -/

theorem nodup_settingProblems (p : SweepPlan) : p.settingProblems.Nodup := by
  unfold settingProblems
  split_ifs <;> decide

theorem mem_settingProblems {q : Problem} : q ∈ p.settingProblems ↔ p.Flaw .settings q := by
  simp only [settingProblems, List.mem_append, List.mem_ite_nil_right, List.mem_singleton]
  constructor
  · rintro ((((⟨h, rfl⟩ | ⟨h, rfl⟩) | ⟨h, rfl⟩) | ⟨h, rfl⟩) | ⟨h, rfl⟩)
    · exact .zeroTarget h
    · exact .zeroPollInterval h
    · exact .noStorageCommand h
    · exact .noComposeCommand h
    · exact .noDockerCommand h
  · intro hq
    cases hq <;> simp [*]

/-- What is wrong with an axis that comes after axes of the dimensions `seen`. -/
def AxisFlaw (seen : List Dimension) (a : Axis) (j : Option Nat) (q : Problem) : Prop :=
  (j = none ∧ q = .repeatedAxis a.dimension ∧ a.dimension ∈ seen) ∨
    ∃ f, .axis a.dimension f = q ∧ a.Flaw j f

theorem lists_axisFlaw (seen : List Dimension) (a : Axis) :
    Lists (AxisFlaw seen a) ((if a.dimension ∈ seen then [.repeatedAxis a.dimension] else []) ++
      a.faults.map (.axis a.dimension)) := by
  have hrepeated : Lists
      (fun (j : Option Nat) q => j = none ∧ q = .repeatedAxis a.dimension ∧ a.dimension ∈ seen)
      (if a.dimension ∈ seen then [Problem.repeatedAxis a.dimension] else []) := by
    refine (Lists.of_nodup none (by split_ifs <;> simp)).congr ?_
    intro j q
    rw [List.mem_ite_nil_right, List.mem_singleton, and_comm (a := q = _)]
  have hfaults := a.lists_faults.map (g := Problem.axis a.dimension) fun _ _ h =>
    (Problem.axis.inj h).2
  refine hrepeated.append hfaults ?_
  rintro j q ⟨-, rfl, -⟩ ⟨f, hf, -⟩
  cases hf

theorem lists_axisProblems (seen : List Dimension) (as : List Axis) :
    Lists (fun (s : Nat × Option Nat) q => ∃ a, as[s.1]? = some a ∧
      AxisFlaw (seen ++ (as.take s.1).map Axis.dimension) a s.2 q) (axisProblems seen as) := by
  induction as generalizing seen with
  | nil => exact ⟨[], by simp [axisProblems]⟩
  | cons a as ih =>
    refine ((lists_axisFlaw seen a).cons (ih (a.dimension :: seen))).congr ?_
    rintro ⟨n, j⟩ q
    cases n with
    | zero => simp
    | succ n => simp [AxisFlaw, or_left_comm]

/-- The problems that do not concern cells are the flaws of settings and axes, each as often as
there are places that have it. -/
theorem lists_flaws (p : SweepPlan) :
    Lists p.Flaw (p.settingProblems ++ axisProblems [] p.grid) := by
  have hsettings := Lists.of_nodup Spot.settings p.nodup_settingProblems
  have haxes := (lists_axisProblems [] p.grid).respot (f := fun s => Spot.axis s.1 s.2)
    fun _ _ h => Prod.ext (Spot.axis.inj h).1 (Spot.axis.inj h).2
  refine (hsettings.append haxes ?_).congr ?_
  · rintro s q ⟨rfl, -⟩ ⟨t, ht, -⟩
    cases ht
  · intro s q
    constructor
    · intro h
      cases h with
      | repeatedAxis hi ha => exact .inr ⟨(_, none), rfl, _, hi, .inl ⟨rfl, rfl, ha⟩⟩
      | axis hi hf => exact .inr ⟨(_, _), rfl, _, hi, .inr ⟨_, rfl, hf⟩⟩
      | _ => exact .inl ⟨rfl, mem_settingProblems.2 (by constructor; assumption)⟩
    · rintro (⟨rfl, hq⟩ | ⟨⟨i, j⟩, rfl, a, hi, ⟨rfl, rfl, ha⟩ | ⟨f, rfl, hf⟩⟩)
      · exact mem_settingProblems.1 hq
      · exact .repeatedAxis hi ha
      · exact .axis hi hf

/-! ### Plans whose settings and axes are sound -/

/-- No axis repeats the dimension of an earlier one. -/
theorem distinct_iff : (p.grid.map Axis.dimension).Nodup ↔
    ∀ i a, p.grid[i]? = some a → a.dimension ∉ (p.grid.take i).map Axis.dimension := by
  rw [List.nodup_iff_getElem?_ne_getElem?]
  constructor
  · intro h i a hi ha
    obtain ⟨b, hb, hab⟩ := List.mem_map.1 ha
    obtain ⟨j, hj, rfl⟩ := List.mem_take_iff_getElem.1 hb
    obtain ⟨hlength, rfl⟩ := List.getElem?_eq_some_iff.1 hi
    refine h j i (by omega) (by simpa using hlength) ?_
    rw [List.getElem?_map, List.getElem?_map, hi, List.getElem?_eq_getElem (by omega)]
    simp [hab]
  · intro h i j hij hj he
    have hj' : j < p.grid.length := by simpa using hj
    refine h j _ (List.getElem?_eq_getElem hj') (List.mem_map.2 ⟨p.grid[i], ?_, ?_⟩)
    · exact List.mem_take_iff_getElem.2 ⟨i, by omega, rfl⟩
    · simpa [hj', Nat.lt_trans hij hj'] using he

/-- Neither the settings nor the axes are at fault. -/
def Clean (p : SweepPlan) : Prop := ∀ s q, ¬p.Flaw s q

theorem Clean.axes (h : p.Clean) : ∀ a ∈ p.grid, a.Sound := by
  intro a ha
  obtain ⟨i, hi⟩ := List.mem_iff_getElem?.1 ha
  exact a.sound_iff.2 fun j f hf => h _ _ (.axis hi hf)

theorem Clean.distinct (h : p.Clean) : (p.grid.map Axis.dimension).Nodup :=
  distinct_iff.2 fun _ _ hi ha => h _ _ (.repeatedAxis hi ha)

theorem Clean.fits (h : p.Clean) : ∀ a ∈ p.grid, a.Fits := fun a ha => (h.axes a ha).fits

/-! ### The cells -/

theorem Clean.picks_iff (h : p.Clean) {is : List Nat} {es : List Entry} {q : TrialParameters} :
    p.Picks is es q ↔ (is, ⟨es, q⟩) ∈ p.placed :=
  SweepPlan.picks_iff h.axes h.distinct

/-- There is a cell exactly if one can be picked. -/
theorem Clean.cells_eq_nil_iff (h : p.Clean) : p.cells = [] ↔ ∀ is es q, ¬p.Picks is es q := by
  rw [← cells_placed, List.map_eq_nil_iff, List.eq_nil_iff_forall_not_mem]
  simp only [h.picks_iff]
  exact ⟨fun hnone is es q => hnone _, fun hnone ⟨is, es, q⟩ => hnone is es q⟩

theorem mem_cells_of_placed {x : List Nat × Cell} (hx : x ∈ p.placed) : x.2 ∈ p.cells :=
  p.cells_placed ▸ List.mem_map_of_mem hx

theorem cellProblems_eq (h : p.Clean) {c : Cell} (hc : c ∈ p.cells) :
    p.cellProblems c.key = if c.parameters.nodeCount < 2 then [.fewNodes c.key]
      else if c.parameters.nodeCount - 1 < c.parameters.faultCount then
        [.manyFaults c.key c.parameters.faultCount c.parameters.nodeCount]
      else [] := by
  rw [cellProblems, parametersFor_eq h.fits c hc]
  rfl

theorem nodup_cellProblems (h : p.Clean) {c : Cell} (hc : c ∈ p.cells) :
    (p.cellProblems c.key).Nodup := by
  rw [cellProblems_eq h hc]
  split_ifs <;> simp

theorem mem_cellProblems (h : p.Clean) {x : List Nat × Cell} {q : Problem} (hx : x ∈ p.placed) :
    q ∈ p.cellProblems x.2.key ↔ p.GridFlaw (.cell x.1) q := by
  rw [cellProblems_eq h (mem_cells_of_placed hx)]
  -- the cell that is picked at its places is the one that stands there
  have hpicked : ∀ {es r}, p.Picks x.1 es r → x.2 = ⟨es, r⟩ := fun hpick =>
    congrArg Prod.snd (List.inj_on_of_nodup_map p.nodup_places hx (h.picks_iff.1 hpick) rfl)
  have hpick : p.Picks x.1 x.2.entries x.2.parameters := h.picks_iff.2 hx
  constructor
  · intro hq
    split_ifs at hq with hn hf
    · rw [List.mem_singleton.1 hq]
      exact .fewNodes hpick hn
    · rw [List.mem_singleton.1 hq]
      exact .manyFaults hpick (Nat.not_lt.1 hn) hf
    · cases hq
  · intro hq
    cases hq with
    | fewNodes hpick hn =>
      rw [hpicked hpick]
      simp [hn, Cell.key]
    | manyFaults hpick hn hf =>
      rw [hpicked hpick]
      simp [Nat.not_lt.2 hn, hf, Cell.key]

theorem missingSize?_eq (h : p.Clean) {c : Cell} (hc : c ∈ p.cells) :
    p.missingSize? c.key = if p.payloads.contains c.parameters.payloadSize then none
      else some c.parameters.payloadSize := by
  rw [missingSize?, parametersFor_eq h.fits c hc]

theorem nodup_missingSizes (ks : List ConfigurationKey) : (p.missingSizes ks).Nodup :=
  SortedMap.nodup_keys _

theorem mem_missingSizes (h : p.Clean) {size : String} :
    size ∈ p.missingSizes (p.cells.map Cell.key) ↔
      p.GridFlaw (.payload size) (.noPayload size) := by
  have hmissing : size ∈ p.missingSizes (p.cells.map Cell.key) ↔
      ∃ c ∈ p.cells, p.missingSize? c.key = some size := by
    rw [missingSizes, SortedMap.mem_keys_ofList]
    simp
  rw [hmissing]
  constructor
  · rintro ⟨c, hc, hsize⟩
    rw [missingSize?_eq h hc] at hsize
    split_ifs at hsize with hpayload
    cases hsize
    obtain ⟨is, hpick⟩ := exists_picks h.axes h.distinct hc
    exact .noPayload hpick (Bool.eq_false_of_not_eq_true hpayload)
  · intro hq
    cases hq with
    | noPayload hpick hpayload =>
      have hc := mem_cells_of_placed (h.picks_iff.1 hpick)
      exact ⟨_, hc, by simp [missingSize?_eq h hc, hpayload]⟩

theorem gridProblems_eq (h : p.Clean) (hcells : p.cells ≠ []) : p.gridProblems =
    p.placed.flatMap (p.cellProblems ·.2.key) ++
      (p.missingSizes (p.cells.map Cell.key)).map .noPayload := by
  have hproblems : p.placed.flatMap (p.cellProblems ·.2.key) =
      p.cells.flatMap (p.cellProblems ·.key) := by
    rw [← cells_placed, List.flatMap_map]
  rw [gridProblems, keys_eq h.fits, hproblems]
  cases hcs : p.cells with
  | nil => exact absurd hcs hcells
  | cons c cs => simp only [List.map_cons, List.flatMap_cons, List.flatMap_map]

/-- A grid without cells has one problem only. -/
theorem lists_noCells (h : p.Clean) (hcells : p.cells = []) : Lists p.GridFlaw p.gridProblems := by
  have hnone := h.cells_eq_nil_iff.1 hcells
  have hproblems : p.gridProblems = [.noCells] := by
    rw [gridProblems, keys_eq h.fits, hcells]
    rfl
  rw [hproblems]
  refine (Lists.of_nodup Spot.grid (List.nodup_singleton _)).congr ?_
  intro s q
  constructor
  · intro hq
    cases hq with
    | noCells => exact ⟨rfl, List.mem_singleton_self _⟩
    | fewNodes hpick => exact absurd hpick (hnone _ _ _)
    | manyFaults hpick => exact absurd hpick (hnone _ _ _)
    | noPayload hpick => exact absurd hpick (hnone _ _ _)
  · rintro ⟨rfl, hq⟩
    rw [List.mem_singleton.1 hq]
    exact .noCells hnone

/-- The problems of cells are their flaws, each as often as there are cells that have it, and the
sizes that no payload is declared for, each once. -/
theorem lists_gridFlaws (h : p.Clean) : Lists p.GridFlaw p.gridProblems := by
  by_cases hcells : p.cells = []
  · exact lists_noCells h hcells
  have hcell := (Lists.of_placed p.nodup_places fun x hx =>
    nodup_cellProblems h (mem_cells_of_placed hx)).respot (f := Spot.cell) fun _ _ => Spot.cell.inj
  have hsize := (Lists.of_spots (p.nodup_missingSizes (p.cells.map Cell.key))
    Problem.noPayload).respot (f := Spot.payload) fun _ _ => Spot.payload.inj
  rw [gridProblems_eq h hcells]
  refine (hcell.append hsize ?_).congr ?_
  · rintro s q ⟨is, rfl, -⟩ ⟨size, hs, -⟩
    cases hs
  · intro s q
    constructor
    · intro hq
      cases hq with
      | noCells hnone => exact absurd (h.cells_eq_nil_iff.2 hnone) hcells
      | fewNodes hpick hn =>
        have hx := h.picks_iff.1 hpick
        exact .inl ⟨_, rfl, _, hx, rfl, (mem_cellProblems h hx).2 (.fewNodes hpick hn)⟩
      | manyFaults hpick hn hf =>
        have hx := h.picks_iff.1 hpick
        exact .inl ⟨_, rfl, _, hx, rfl, (mem_cellProblems h hx).2 (.manyFaults hpick hn hf)⟩
      | noPayload hpick hpayload =>
        exact .inr ⟨_, rfl, (mem_missingSizes h).2 (.noPayload hpick hpayload), rfl⟩
    · rintro (⟨is, rfl, x, hx, rfl, hq⟩ | ⟨size, rfl, hmissing, rfl⟩)
      · exact (mem_cellProblems h hx).1 hq
      · exact (mem_missingSizes h).1 hmissing

/-! ### Acceptance -/

theorem Sound.clean (h : p.Sound) : p.Clean := by
  intro s q hq
  cases hq with
  | zeroTarget h0 => exact absurd h.target (by omega)
  | zeroPollInterval h0 => exact absurd h.poll_interval (by omega)
  | noStorageCommand h0 => exact h.storage_command h0
  | noComposeCommand h0 => exact h.compose_command h0
  | noDockerCommand h0 => exact h.docker_command h0
  | repeatedAxis hi ha => exact distinct_iff.1 h.distinct _ _ hi ha
  | axis hi hf => exact (Axis.sound_iff _).1 (h.axes _ (List.mem_of_getElem? hi)) _ _ hf

theorem sound_iff : p.Sound ↔ p.Clean ∧ ∀ s q, ¬p.GridFlaw s q := by
  constructor
  · intro h
    refine ⟨h.clean, ?_⟩
    intro s q hq
    cases hq with
    | noCells hnone =>
      obtain ⟨is, es, r, hpick⟩ := h.some_cell
      exact hnone is es r hpick
    | fewNodes hpick hn => exact absurd (h.nodes hpick) (by omega)
    | manyFaults hpick hn hf => exact absurd (h.faults hpick) (by omega)
    | noPayload hpick hsize => simp [h.payloads hpick] at hsize
  · rintro ⟨h, hgrid⟩
    constructor
    case target => exact Nat.pos_of_ne_zero fun h0 => h _ _ (.zeroTarget h0)
    case poll_interval => exact Nat.pos_of_ne_zero fun h0 => h _ _ (.zeroPollInterval h0)
    case storage_command => exact fun h0 => h _ _ (.noStorageCommand h0)
    case compose_command => exact fun h0 => h _ _ (.noComposeCommand h0)
    case docker_command => exact fun h0 => h _ _ (.noDockerCommand h0)
    case distinct => exact h.distinct
    case axes => exact h.axes
    case some_cell =>
      by_contra hnone
      push Not at hnone
      exact hgrid _ _ (.noCells hnone)
    case nodes => exact fun hpick => Nat.not_lt.1 fun hn => hgrid _ _ (.fewNodes hpick hn)
    case faults =>
      intro is es q hpick
      by_cases hn : q.nodeCount < 2
      · exact absurd (.fewNodes hpick hn) (hgrid _ _)
      · exact Nat.not_lt.1 fun hf => hgrid _ _ (.manyFaults hpick (Nat.not_lt.1 hn) hf)
    case payloads =>
      intro is es q hpick
      by_contra hsize
      exact hgrid _ _ (.noPayload hpick (Bool.eq_false_of_not_eq_true hsize))

theorem problems_of_not_clean (h : ¬p.Clean) :
    p.problems = p.settingProblems ++ axisProblems [] p.grid := by
  have hne : p.settingProblems ++ axisProblems [] p.grid ≠ [] := mt p.lists_flaws.eq_nil_iff.1 h
  unfold problems
  split
  · next hnil => exact absurd hnil hne
  · rfl

theorem problems_of_clean (h : p.Clean) : p.problems = p.gridProblems := by
  rw [problems, p.lists_flaws.eq_nil_iff.2 h]

/-- There is nothing to report exactly if the plan is as it has to be. -/
theorem problems_eq_nil_iff : p.problems = [] ↔ p.Sound := by
  rw [sound_iff]
  by_cases h : p.Clean
  · rw [problems_of_clean h, (lists_gridFlaws h).eq_nil_iff, and_iff_right h]
  · rw [problems_of_not_clean h, p.lists_flaws.eq_nil_iff]
    exact ⟨fun hclean => absurd hclean h, fun hclean => hclean.1⟩

instance (p : SweepPlan) : Decidable p.Sound :=
  decidable_of_iff (p.problems = []) problems_eq_nil_iff

/-- Where the paths of a plan start makes no difference to what is wrong with it. -/
theorem problems_rebase (p : SweepPlan) (dir : String) : (p.rebase dir).problems = p.problems := by
  have hsize : (p.rebase dir).missingSize? = p.missingSize? := by
    funext k
    have hpayloads : ∀ size, (p.rebase dir).payloads.contains size = p.payloads.contains size :=
      SortedMap.contains_mapValues _ _
    simp only [missingSize?, hpayloads]
    rfl
  simp only [problems, gridProblems, missingSizes, hsize]
  rfl

/-- The plan that a text holds, with its paths as they are given there. -/
def decode? (text : String) : Option SweepPlan :=
  (Yaml.parse? text).bind (Yaml.Place.read? extent read)

/-- The text of an error that lists problems. -/
def report (found : List Problem) : String :=
  "sweep plan is invalid:\n" ++ "\n".intercalate (found.map fun q => "  - " ++ q.message)

theorem chain_unsoundPlan (lines : List String) : (Cause.unsoundPlan lines).chain =
    ["sweep plan is invalid:\n" ++ "\n".intercalate (lines.map ("  - " ++ ·))] := by
  rw [Cause.chain]

theorem chain_report (found : List Problem) :
    (Cause.unsoundPlan (found.map Problem.message)).chain = [report found] := by
  have hlines : (found.map Problem.message).map ("  - " ++ ·) =
      found.map fun q => "  - " ++ q.message := List.map_map
  exact (chain_unsoundPlan _).trans
    (congrArg (fun lines => ["sweep plan is invalid:\n" ++ "\n".intercalate lines]) hlines)

theorem ofText_eq {text : String} (h : decode? text = some p) (dir : String) :
    ofText text dir = if p.problems = [] then .ok (p.rebase dir)
      else .error (.unsoundPlan (p.problems.map Problem.message)) := by
  unfold decode? at h
  rw [ofText, h]
  simp only [validate, problems_rebase]

/-- A text that holds a plan is accepted exactly if the plan is sound. Where its settings and axes
are, the cells that it is asked about are those that can be picked, and each resolves to what it is
picked with. Of a plan that is not sound the error lists what is wrong with the settings and the
axes, one line for each; if nothing is, it lists what is wrong with the cells. -/
theorem ofText_ok_iff_sound {text : String} (h : decode? text = some p) (dir : String) :
    (∀ q, ofText text dir = .ok q ↔ p.Sound ∧ q = p.rebase dir) ∧
      (p.Clean → ∃ ks, p.keys = .ok ks ∧ (∀ es, ⟨es⟩ ∈ ks ↔ ∃ is q, p.Picks is es q) ∧
        ∀ is es q, p.Picks is es q → p.parametersFor ⟨es⟩ = .ok q) ∧
      (¬p.Sound → ∃ e found, ofText text dir = .error e ∧ e.chain = [report found] ∧
        (¬p.Clean → Lists p.Flaw found) ∧ (p.Clean → Lists p.GridFlaw found)) := by
  rw [ofText_eq h]
  refine ⟨?_, fun hclean => ⟨_, keys_eq hclean.fits, fun es => ?_, fun is es q hpick => ?_⟩, ?_⟩
  · intro q
    rw [← problems_eq_nil_iff]
    split_ifs with hnil
    · simp [hnil, eq_comm]
    · simp [hnil]
  · constructor
    · intro hes
      obtain ⟨c, hc, hkey⟩ := List.mem_map.1 hes
      obtain ⟨is, hpick⟩ := exists_picks hclean.axes hclean.distinct hc
      exact ⟨is, _, ConfigurationKey.mk.inj hkey ▸ hpick⟩
    · rintro ⟨is, q, hpick⟩
      exact List.mem_map.2 ⟨_, mem_cells_of_placed (hclean.picks_iff.1 hpick), rfl⟩
  · exact parametersFor_eq hclean.fits _ (mem_cells_of_placed (hclean.picks_iff.1 hpick))
  · intro hunsound
    rw [if_neg (mt problems_eq_nil_iff.1 hunsound)]
    refine ⟨.unsoundPlan (p.problems.map Problem.message), p.problems, rfl,
      chain_report p.problems, ?_, ?_⟩
    · intro hflawed
      rw [problems_of_not_clean hflawed]
      exact p.lists_flaws
    · intro hclean
      rw [problems_of_clean hclean]
      exact lists_gridFlaws hclean

theorem sound_of_ofText {text dir : String} (h : ofText text dir = .ok p) : p.Sound := by
  unfold ofText at h
  split at h
  · cases h
  · unfold validate at h
    split_ifs at h with hnil
    cases h
    exact problems_eq_nil_iff.1 hnil

theorem ok_of_toOption {ε α : Type} {x : Except ε α} {a : α} (h : x.toOption = some a) :
    x = .ok a := by
  cases x with
  | error e => cases h
  | ok b => exact congrArg _ (Option.some.inj h)

/-- A plan of two cells, with one fault and with two. -/
def twoCells : String :=
  "family: reliability\ngrid: [\x7bdimension: fault_count, start: 1, end_below_nodes: 7\x7d]\n" ++
    "payloads: \x7b25MB: \x7bpath: f, file_cid: F, meta_cid: M\x7d\x7d\n"

/-- A plan that is to make no trials. Its second axis repeats the first, and names one label twice
that is neither a count nor fit for a key. -/
def noTrials : String :=
  "family: reliability\ntarget: 0\ngrid: [\x7bdimension: fault_count, end: 0, step: 0\x7d, " ++
    "\x7bdimension: fault_count, values: [a/b, a/b]\x7d]\n"

/-- A plan of four cells and no payload. Two of the cells have one node, and one of the others is to
lose all its nodes. -/
def crowded : String :=
  "family: reliability\ngrid: [\x7bdimension: node_count, values: [1, 4]\x7d, " ++
    "\x7bdimension: fault_count, values: [0, 4]\x7d]\n"

def crowdedReport : List String :=
  ["(node_count: 1, fault_count: 0): topology needs at least 2 nodes",
    "(node_count: 1, fault_count: 4): topology needs at least 2 nodes",
    "(node_count: 4, fault_count: 4): 4 faults would disable node 1 of 4",
    "payloads: no entry for size 25MB"]

theorem two_cells_accepted :
    (∃ p, decode? twoCells = some p ∧ p.cells.length = 2 ∧
      ofText twoCells "/srv" = .ok (p.rebase "/srv")) ∧
    (∃ p e found, decode? noTrials = some p ∧ ofText noTrials "/srv" = .error e ∧
      e.chain = [report found] ∧ Lists p.Flaw found) ∧
    ∃ p e found, decode? crowded = some p ∧ p.Clean ∧ ofText crowded "/srv" = .error e ∧
      e.chain = [report found] ∧ Lists p.GridFlaw found ∧
      e.chain = ["sweep plan is invalid:\n" ++
        "\n".intercalate (crowdedReport.map ("  - " ++ ·))] := by
  refine ⟨?_, ?_, ?_⟩
  · have heval : (decode? twoCells).map (fun p => (decide p.Sound, p.cells.length)) =
        some (true, 2) := by
      decide +kernel
    obtain ⟨p, hp, hvalues⟩ := Option.map_eq_some_iff.1 heval
    obtain ⟨hsound, hlength⟩ := Prod.mk.inj hvalues
    refine ⟨p, hp, hlength, ?_⟩
    exact ((ofText_ok_iff_sound hp "/srv").1 _).2 ⟨of_decide_eq_true hsound, rfl⟩
  · have heval : (decode? noTrials).map target = some 0 := by decide +kernel
    obtain ⟨p, hp, htarget⟩ := Option.map_eq_some_iff.1 heval
    have hflawed : ¬p.Clean := fun hclean => hclean _ _ (.zeroTarget htarget)
    obtain ⟨e, found, he, hchain, hlists, -⟩ :=
      (ofText_ok_iff_sound hp "/srv").2.2 fun hsound => hflawed hsound.clean
    exact ⟨p, e, found, hp, he, hchain, hlists hflawed⟩
  · have heval : (decode? crowded).map (fun p =>
        (p.settingProblems ++ axisProblems [] p.grid, p.problems.map Problem.message)) =
        some ([], crowdedReport) := by
      decide +kernel
    obtain ⟨p, hp, hvalues⟩ := Option.map_eq_some_iff.1 heval
    obtain ⟨hnone, hlines⟩ := Prod.mk.inj hvalues
    have hclean : p.Clean := p.lists_flaws.eq_nil_iff.1 hnone
    have hproblems : p.problems ≠ [] := by
      intro hnil
      rw [hnil] at hlines
      cases hlines
    obtain ⟨e, found, he, hchain, -, hlists⟩ :=
      (ofText_ok_iff_sound hp "/srv").2.2 (mt problems_eq_nil_iff.2 hproblems)
    have hreply := ofText_eq hp "/srv"
    rw [if_neg hproblems, hlines] at hreply
    cases he.symm.trans hreply
    exact ⟨p, _, found, hp, hclean, he, hchain, hlists hclean, chain_unsoundPlan crowdedReport⟩

end FaultSweep.SweepPlan
