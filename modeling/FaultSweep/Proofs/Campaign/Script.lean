import FaultSweep.Proofs.Campaign.Exchanges

/-!
# The script of a trial

What a trial of a cell does can be written down in advance, command by command and request by
request, from the plan, the parameters of the cell and its payload. Every trial follows this script
until something in it fails. Whatever fails, it works on a topology only after this has come up, and
takes it down at the end.
-/

namespace FaultSweep

open scoped Computability

namespace Campaign

variable {σ : Type} {m : Machine σ} {p : SweepPlan} {n : Nat}

/-! ### The script -/

/-- What is done as often as it takes, and once at least. -/
def repeated (d : Deed) : Language Deed := {[d]} * {[d]}∗

/-- The payload is uploaded to as many nodes as there are, or replicated as often as the parameters
say. -/
def uploading (p : SweepPlan) (c : Cell) : Deed :=
  command p (p.storage.command ++ "upload" :: c.payload.path :: match p.family with
    | .replication => ["-t", Decimal.text c.params.replicationFactor]
    | _ => ["--alpha", Decimal.text p.storage.erasure.alpha, "-s", Decimal.text p.storage.erasure.s,
      "-p", Decimal.text p.storage.erasure.p, "-r", Decimal.text c.params.nodeCount])

/-- The containers of each of the targets are killed. -/
def killing (p : SweepPlan) (c : Cell) : List Deed :=
  (faultTargets c.params.faultCount).map fun i => command p (p.topology.dockerCommand ++
    "kill" :: (p.topology.naming.stems p.family.faultMode).map (· ++ Decimal.text i))

/-- A download to some scratch file. A description that is empty is left out. -/
def downloading (p : SweepPlan) (file description : String) (depth : Nat) (flags : List String) :
    Language Deed :=
  {ds | ∃ d : Disk, ds = [command p (p.storage.command ++ (["downloadcnt", file] ++
    (if description = "" then [] else ["-m", description]) ++
    ["-o", (client p).scratchPath d, "-d", Decimal.text depth] ++ flags))]}

def repairing (p : SweepPlan) (c : Cell) : Deed :=
  .request ⟨.post, p.endpoints.endpoints.repair ++ "/triggerCollabRepair",
    some (.obj [("fileCID", .str c.payload.fileCid), ("metaCID", .str c.payload.metaCid),
      ("depth", .nat c.params.repairDepth), ("origin", .str ""),
      ("numPeers", .nat c.params.repairPeers)])⟩

/-- What the family measures, and with which parameters. -/
def measuring (p : SweepPlan) (c : Cell) : Language Deed :=
  match p.family with
  | .reliability => downloading p c.payload.fileCid c.payload.metaCid c.params.repairDepth []
  | .replication => downloading p c.payload.fileCid "" 1 []
  | .singleRepair => downloading p c.payload.fileCid c.payload.metaCid c.params.repairDepth ["-t"]
  | .collabRepair => {[repairing p c]} * repeated (query (p.endpoints.endpoints.control ++ "/done")) *
      {[query (p.endpoints.endpoints.control ++ "/metrics")]}

/-- What a trial of a cell does in which nothing fails, from bringing the topology up to the
measurement. -/
def script (p : SweepPlan) (c : Cell) : Language Deed :=
  rendering p ⟨c.params, p.family.community⟩ * {[bringUp p]} * {[uploading p c]} *
    (if p.family.waitsForPin then
      repeated (query (p.endpoints.endpoints.cluster ++ "/pins/" ++ c.payload.metaCid)) else 1) *
    {killing p c} *
    (if p.family.waitsForDiscovery then
      repeated (query (p.endpoints.endpoints.control ++ "/peers")) else 1) *
    measuring p c

/-! ### The script call by call -/

/-- What a trial does over a call that it makes until it is answered as it has to be. -/
def course (p : SweepPlan) (c : Call) : Language Deed :=
  if c.isProbe then deeds p c * (deeds p c)∗ else deeds p c

theorem course_stopContainers (p : SweepPlan) {names : List String} (hnames : names ≠ []) :
    course p (.stopContainers names) =
      {[command p (p.topology.dockerCommand ++ "kill" :: names)]} := by
  simp [course, Call.isProbe, deeds, hnames]

theorem course_stops (p : SweepPlan) (s : TrialSettings) (is : List Nat) :
    ((is.map fun i => Call.stopContainers
      (s.naming.containersFor i s.family.faultMode)).map (course p)).prod =
      {is.map fun i => command p (p.topology.dockerCommand ++
        "kill" :: (s.naming.stems s.family.faultMode).map (· ++ Decimal.text i))} := by
  induction is with
  | nil => rfl
  | cons i is ih =>
    rw [List.map_cons, List.map_cons, List.prod_cons, ih, NodeNaming.containersFor_eq]
    have hnames : (s.naming.stems s.family.faultMode).map (· ++ Decimal.text i) ≠ [] := by
      cases s.family.faultMode <;> exact List.cons_ne_nil _ _
    rw [course_stopContainers p hnames]
    exact Set.image2_singleton

theorem course_upload (p : SweepPlan) (c : Cell) :
    course p (.upload c.payload.path (Trial.uploadMode p.settings c.params)) =
      {[uploading p c]} := by
  have hargs : StorageClient.uploadArgs c.payload.path (Trial.uploadMode p.settings c.params) =
      "upload" :: c.payload.path :: match p.family with
        | .replication => ["-t", Decimal.text c.params.replicationFactor]
        | _ => ["--alpha", Decimal.text p.storage.erasure.alpha,
          "-s", Decimal.text p.storage.erasure.s, "-p", Decimal.text p.storage.erasure.p,
          "-r", Decimal.text c.params.nodeCount] := by
    cases hf : p.family <;>
      simp [StorageClient.uploadArgs, StorageClient.modeArgs, Trial.uploadMode, SweepPlan.settings,
        hf]
  have hdeeds : deeds p (.upload c.payload.path (Trial.uploadMode p.settings c.params)) =
      {[uploading p c]} := by
    rw [deeds, hargs]
    rfl
  exact hdeeds

theorem course_downloadCount (p : SweepPlan) (file description : String) (depth : Nat)
    (withMetrics : Bool) : course p (.downloadCount file (some description) depth withMetrics) =
      downloading p file description depth (if withMetrics then ["-t"] else []) := rfl

/-- A download without a description is one with an empty description. -/
theorem course_downloadCount_none (p : SweepPlan) (file : String) (depth : Nat) :
    course p (.downloadCount file none depth false) = downloading p file "" depth [] := rfl

theorem course_measures (p : SweepPlan) (c : Cell) :
    (((Trial.measureErrands p.settings c.params c.payload).map Errand.call).map
      (course p)).prod = measuring p c := by
  unfold Trial.measureErrands measuring
  have hfamily : p.settings.family = p.family := rfl
  rw [hfamily]
  cases p.family with
  | reliability =>
    rw [List.map_singleton, List.map_singleton, List.prod_singleton]
    exact course_downloadCount p _ _ _ _
  | replication =>
    rw [List.map_singleton, List.map_singleton, List.prod_singleton]
    exact course_downloadCount_none p _ _
  | singleRepair =>
    rw [List.map_singleton, List.map_singleton, List.prod_singleton]
    exact course_downloadCount p _ _ _ _
  | collabRepair =>
    simp only [List.map_cons, List.map_nil, List.prod_cons, List.prod_nil, mul_one, mul_assoc]
    rfl

/-- A wait that a family may do without. -/
theorem course_optional (p : SweepPlan) (needed : Bool) (e : Errand) :
    (((if needed then [e] else []).map Errand.call).map (course p)).prod =
      if needed then course p e.call else 1 := by
  cases needed <;> simp

/-- The script is what the calls of the itinerary come to. -/
theorem prod_itinerary (p : SweepPlan) (c : Cell) :
    ((Trial.itinerary p.settings c.params c.payload).map (course p)).prod = script p c := by
  have hstops := course_stops p p.settings (faultTargets c.params.faultCount)
  have hcalls : (Trial.stopErrands p.settings c.params).map Errand.call =
      (faultTargets c.params.faultCount).map fun i => Call.stopContainers
        (p.settings.naming.containersFor i p.settings.family.faultMode) := by
    simp [Trial.stopErrands, Function.comp_def]
  simp only [Trial.itinerary, Trial.errands, List.map_append, List.prod_append, course_measures,
    hcalls, hstops, course_optional, List.map_cons, List.map_nil, List.prod_cons, List.prod_nil,
    mul_one, course_upload]
  rfl

/-! ### What is shown follows the script -/

/-- Every topology can be rendered. -/
theorem exists_mem_rendering (p : SweepPlan) (spec : TopologySpec) :
    ∃ ds, ds ∈ rendering p spec := by
  simp only [mem_rendering]
  split_ifs
  · exact ⟨[], rfl⟩
  · exact ⟨_, _, Template.forall₂_filled_render p.topology.renderCommand spec, rfl⟩

theorem exists_mem_deeds (p : SweepPlan) (c : Call) : ∃ ds, ds ∈ deeds p c := by
  cases c with
  | provision spec =>
    obtain ⟨ds, hds⟩ := exists_mem_rendering p spec
    exact ⟨ds ++ [bringUp p], Language.append_mem_mul hds rfl⟩
  | downloadCount => exact ⟨_, ⟨.empty, [], fun _ => none, 0⟩, rfl⟩
  | _ => exact ⟨_, rfl⟩

theorem exists_mem_course (p : SweepPlan) (c : Call) : ∃ ds, ds ∈ course p c := by
  obtain ⟨ds, hds⟩ := exists_mem_deeds p c
  unfold course
  split_ifs
  · exact ⟨ds ++ [], Language.append_mem_mul hds (Language.nil_mem_kstar _)⟩
  · exact ⟨ds, hds⟩

theorem exists_mem_courses (p : SweepPlan) (cs : List Call) :
    ∃ ds, ds ∈ (cs.map (course p)).prod := by
  induction cs with
  | nil => exact ⟨[], rfl⟩
  | cons c cs ih =>
    obtain ⟨ds, hds⟩ := exists_mem_course p c
    obtain ⟨es, hes⟩ := ih
    exact ⟨ds ++ es, Language.append_mem_mul hds hes⟩

theorem deeds_of_shows {c : Call} {a : c.Answer} {es : List Event} (h : Shows p ⟨c, a⟩ es)
    (hc : ∀ spec, c ≠ .provision spec) : es.map Event.deed ∈ deeds p c := by
  cases c with
  | provision spec => exact absurd rfl (hc spec)
  | _ => exact h

/-- A topology that does not come up may lack its last command. -/
theorem deeds_of_raises {spec : TopologySpec} {up : Bool} {es : List Event}
    (h : Raises p spec up es) : ∃ rest, es.map Event.deed ++ rest ∈ deeds p (.provision spec) ∧
      (up = true → rest = []) := by
  cases h with
  | unrendered hrender =>
    exact ⟨[bringUp p], Language.append_mem_mul hrender rfl, fun h => by cases h⟩
  | rendered hrender _ hup =>
    refine ⟨[], ?_, fun _ => rfl⟩
    rw [List.append_nil, List.map_append]
    exact Language.append_mem_mul hrender (congrArg (fun d => [d]) hup)

/-- The events over one call. -/
theorem course_of_asks {c : Call} {met : Bool} {fs : List Exchange} {parts : List (List Event)}
    (h : Asks n c met fs) (hshows : List.Forall₂ (Shows p) fs parts) :
    ∃ rest, parts.flatten.map Event.deed ++ rest ∈ course p c ∧ (met = true → rest = []) := by
  induction h generalizing parts with
  | last a =>
    obtain ⟨es, _, hes, hnil, rfl⟩ := List.forall₂_cons_left_iff.1 hshows
    obtain rfl := List.forall₂_nil_left_iff.1 hnil
    rw [List.flatten_singleton]
    by_cases hc : ∃ spec, c = .provision spec
    · obtain ⟨spec, rfl⟩ := hc
      exact deeds_of_raises hes
    · refine ⟨[], ?_, fun _ => rfl⟩
      have hdeeds := deeds_of_shows hes (not_exists.1 hc)
      rw [List.append_nil, course]
      split_ifs
      · exact ⟨_, hdeeds, [], Language.nil_mem_kstar _, List.append_nil _⟩
      · exact hdeeds
  | @again a met fs hprobe _ _ ih =>
    obtain ⟨es, parts, hes, hparts, rfl⟩ := List.forall₂_cons_left_iff.1 hshows
    obtain ⟨rest, hrest, hmet⟩ := ih hparts
    refine ⟨rest, ?_, hmet⟩
    have hdeeds : es.map Event.deed ∈ deeds p c := by
      refine deeds_of_shows hes ?_
      rintro spec rfl
      cases hprobe
    rw [course, if_pos hprobe] at hrest ⊢
    rw [List.flatten_cons, List.map_append, List.append_assoc]
    -- One time more is among the times there may be.
    have hmore : deeds p c * (deeds p c)∗ ≤ (deeds p c)∗ := mul_kstar_le_kstar
    exact Language.append_mem_mul hdeeds (hmore hrest)

/-- The events over calls in a row, which end with the first that was not answered as it had to
be. -/
theorem courses_of_goes {cs : List Call} {end? : Option Call} {fs : List Exchange}
    {parts : List (List Event)} (h : Goes n cs end? fs)
    (hshows : List.Forall₂ (Shows p) fs parts) :
    ∃ rest, parts.flatten.map Event.deed ++ rest ∈ (cs.map (course p)).prod ∧
      (end? = none → rest = []) := by
  induction h generalizing parts with
  | done =>
    obtain rfl := List.forall₂_nil_left_iff.1 hshows
    exact ⟨[], rfl, fun _ => rfl⟩
  | @ends c cs es hasks =>
    obtain ⟨rest, hrest, -⟩ := course_of_asks hasks hshows
    obtain ⟨ds, hds⟩ := exists_mem_courses p cs
    refine ⟨rest ++ ds, ?_, fun h => by cases h⟩
    rw [← List.append_assoc]
    exact Language.append_mem_mul hrest hds
  | @next c cs end? es fs hasks _ ih =>
    obtain ⟨first, later, rfl, hfirst, hlater⟩ := forall₂_append_left hshows
    obtain ⟨missing, hcourse, hmet⟩ := course_of_asks hasks hfirst
    obtain ⟨rest, hrest, hend⟩ := ih hlater
    obtain rfl := hmet rfl
    refine ⟨rest, ?_, hend⟩
    rw [List.append_nil] at hcourse
    rw [List.flatten_append, List.map_append, List.append_assoc]
    exact Language.append_mem_mul hcourse hrest

/-! ### Bouts -/

/-- What is done with a topology that is up: the storage client is run, containers are killed, and
requests are sent. -/
inductive Working (p : SweepPlan) : Deed → Prop
  | upload (args : List String) : Working p (command p (p.storage.command ++ "upload" :: args))
  | download (args : List String) :
      Working p (command p (p.storage.command ++ "downloadcnt" :: args))
  | kill (names : List String) : Working p (command p (p.topology.dockerCommand ++ "kill" :: names))
  | request (r : Request) : Working p (.request r)

/-- One topology: it is brought up, and worked on if it came up. -/
def bout (p : SweepPlan) : Language Event :=
  {es | ∃ spec up raising working, es = raising ++ working ∧ Raises p spec up raising ∧
    (up = false → working = []) ∧ ∀ e ∈ working, Working p e.deed}

/-- Whatever comes of the commands, all of them are tried. -/
def fall (p : SweepPlan) : Language Event := {es | es.map Event.deed = takedown p}

theorem working_of_deeds {c : Call} {ds : List Deed} (h : ds ∈ deeds p c)
    (hc : ∀ spec, c ≠ .provision spec) (hc' : c ≠ .teardown) : ∀ d ∈ ds, Working p d := by
  intro d hd
  cases c with
  | provision spec => exact absurd rfl (hc spec)
  | teardown => exact absurd rfl hc'
  | stopContainers names =>
    obtain rfl : ds = if names = [] then [] else _ := h
    split_ifs at hd
    · cases hd
    · rw [List.mem_singleton.1 hd]
      exact .kill names
  | downloadCount file description depth withMetrics =>
    obtain ⟨e, rfl⟩ := h
    rw [List.mem_singleton.1 hd]
    exact .download _
  | upload path mode =>
    obtain rfl : ds = [_] := h
    rw [List.mem_singleton.1 hd]
    exact .upload _
  | _ =>
    obtain rfl : ds = [_] := h
    rw [List.mem_singleton.1 hd]
    exact .request _

theorem exists_shows_of_mem {fs : List Exchange} {parts : List (List Event)}
    (h : List.Forall₂ (Shows p) fs parts) {e : Event} (he : e ∈ parts.flatten) :
    ∃ x ∈ fs, ∃ es, Shows p x es ∧ e ∈ es := by
  induction h with
  | nil => cases he
  | @cons x es fs parts hx _ ih =>
    rcases List.mem_append.1 he with he | he
    · exact ⟨x, List.mem_cons_self, es, hx, he⟩
    · obtain ⟨y, hy, rest⟩ := ih he
      exact ⟨y, List.mem_cons_of_mem _ hy, rest⟩

/-- A topology is asked for once. -/
theorem raises_of_asks {spec : TopologySpec} {met : Bool} {fs : List Exchange}
    {parts : List (List Event)} (h : Asks n (.provision spec) met fs)
    (hshows : List.Forall₂ (Shows p) fs parts) : ∃ es, parts = [es] ∧ Raises p spec met es := by
  cases h with
  | last a =>
    obtain ⟨es, _, hes, hnil, rfl⟩ := List.forall₂_cons_left_iff.1 hshows
    obtain rfl := List.forall₂_nil_left_iff.1 hnil
    exact ⟨es, rfl, hes⟩
  | again hprobe => cases hprobe

/-- Calls that come after a topology was asked for make no other. -/
theorem bout_of_goes {spec : TopologySpec} {cs : List Call} {end? : Option Call}
    {fs : List Exchange} {parts : List (List Event)} (h : Goes n (.provision spec :: cs) end? fs)
    (hcs : ∀ c ∈ cs, (∀ spec, c ≠ .provision spec) ∧ c ≠ .teardown)
    (hshows : List.Forall₂ (Shows p) fs parts) : parts.flatten ∈ bout p := by
  cases h with
  | ends hasks =>
    obtain ⟨es, rfl, hraises⟩ := raises_of_asks hasks hshows
    refine ⟨spec, false, es, [], ?_, hraises, fun _ => rfl, List.forall_mem_nil _⟩
    rw [List.flatten_singleton, List.append_nil]
  | @next _ _ _ es fs hasks hgoes =>
    obtain ⟨first, later, rfl, hfirst, hlater⟩ := forall₂_append_left hshows
    obtain ⟨raising, rfl, hraises⟩ := raises_of_asks hasks hfirst
    refine ⟨spec, true, raising, later.flatten, ?_, hraises, (fun h => by cases h), ?_⟩
    · rw [List.flatten_append, List.flatten_singleton]
    · intro e he
      obtain ⟨⟨c, a⟩, hx, es, hes, he⟩ := exists_shows_of_mem hlater he
      obtain ⟨hprovision, hteardown⟩ := hcs c (hgoes.call_mem _ hx)
      have hdeeds := deeds_of_shows hes hprovision
      exact working_of_deeds hdeeds hprovision hteardown _ (List.mem_map_of_mem he)

/-! ### Trials -/

/-- A trial of a cell that is over, with its events and its record. -/
structure Conducted (m : Machine σ) (p : SweepPlan) (c : Cell) (u : World σ) (es : List Event)
    (r : TrialRecord) (v : World σ) : Prop where
  ran : trialOf m p c u = (some r, v)
  happens : World.Happens m (Scratches p) u es v
  events : ∃ body down, es = body ++ down ∧ body ∈ bout p ∧ down ∈ fall p ∧
    ∃ rest, body.map Event.deed ++ rest ∈ script p c ∧ (r.status.isRecordable = true → rest = [])
  completed : r.status.isRecordable = true →
    (r.status = .success ∨ r.status = .shortfall) ∧ r.phase = .completed ∧ r.detail = none

theorem status_of_isRecordable {s : TrialStatus} (h : s.isRecordable = true) :
    s = .success ∨ s = .shortfall := by
  cases s <;> simp_all [TrialStatus.isRecordable]

/-- The itinerary begins with the topology, and asks for no other. -/
theorem itinerary_cons (s : TrialSettings) (q : TrialParameters) (payload : PayloadSpec) :
    ∃ cs, Trial.itinerary s q payload = .provision ⟨q, s.family.community⟩ :: cs ∧
      ∀ c ∈ cs, (∀ spec, c ≠ .provision spec) ∧ c ≠ .teardown := by
  refine ⟨_, rfl, ?_⟩
  cases hf : s.family <;>
    simp [Trial.stopErrands, Trial.measureErrands, hf, TrialFamily.waitsForPin,
      TrialFamily.waitsForDiscovery, or_imp, forall_and]

/-- Every trial that is over followed its script, in full if its record is kept. -/
theorem conducted_of_trial {c : Cell} {u v : World σ} {r : TrialRecord}
    (h : trialOf m p c u = (some r, v)) : ∃ es, Conducted m p c u es r v := by
  obtain ⟨fs, parts, down, hending, hshows, hdown, hhappens⟩ := trial_happens h
  have hgoes : ∃ end?, Goes c.params.survivors
      (Trial.itinerary p.settings c.params c.payload) end? fs ∧
      (r.status.isRecordable = true → end? = none) := by
    cases hending with
    | measured _ _ hgoes _ => exact ⟨none, hgoes, fun _ => rfl⟩
    | interrupted d hmem hgoes hstatus =>
      refine ⟨some d, hgoes, fun hr => ?_⟩
      rw [hstatus, Call.verdict] at hr
      split_ifs at hr <;> cases hr
  obtain ⟨end?, hgoes, hmet⟩ := hgoes
  obtain ⟨rest, hscript, hrest⟩ := courses_of_goes hgoes hshows
  rw [prod_itinerary] at hscript
  obtain ⟨cs, hcons, hcs⟩ := itinerary_cons p.settings c.params c.payload
  rw [hcons] at hgoes
  refine ⟨parts.flatten ++ down, h, hhappens, ⟨_, _, rfl, bout_of_goes hgoes hcs hshows, hdown,
    rest, hscript, fun hr => hrest (hmet hr)⟩, fun hr => ?_⟩
  have hphase := hending.recordable_iff.1 hr
  exact ⟨status_of_isRecordable hr, hphase, hending.detail_iff.2 hphase⟩

end Campaign

end FaultSweep
