import Mathlib.Computability.Language
import FaultSweep.Campaign
import FaultSweep.Proofs.Topology.Filling
import FaultSweep.Proofs.Trial.Invariants
import FaultSweep.Proofs.Trial.Truth
import FaultSweep.Proofs.World.Events

/-!
# What the calls of a trial come to

A trial makes calls, and the topology and the storage client of a plan answer them by starting
programs and sending requests. Which ones these are follows from the call and the plan.
-/

namespace FaultSweep

namespace Campaign

variable {σ : Type}

/-! ### The commands and requests of a plan -/

/-- A program of a plan is started in the directory of the plan. -/
def command (p : SweepPlan) (argv : List String) : Deed := .launch argv (some p.baseDir)

/-- The command that renders a topology, if the plan has one: its template, with the values of the
topology filled into each argument. -/
def rendering (p : SweepPlan) (spec : TopologySpec) : Language Deed :=
  {ds | if p.topology.renderCommand = [] then ds = [] else ∃ argv,
    List.Forall₂ (fun a r => Template.Filled (Template.values spec) a.toList r.toList)
      p.topology.renderCommand argv ∧ ds = [command p argv]}

theorem mem_rendering {p : SweepPlan} {spec : TopologySpec} {ds : List Deed} :
    ds ∈ rendering p spec ↔ if p.topology.renderCommand = [] then ds = [] else ∃ argv,
      List.Forall₂ (fun a r => Template.Filled (Template.values spec) a.toList r.toList)
        p.topology.renderCommand argv ∧ ds = [command p argv] := Iff.rfl

def bringUp (p : SweepPlan) : Deed := command p (p.topology.composeCommand ++ ["up", "-d"])

/-- The commands that take a topology down. -/
def takedown (p : SweepPlan) : List Deed :=
  [command p (p.topology.composeCommand ++ ["down"]),
    command p (p.topology.dockerCommand ++ ["volume", "prune", "-f"]),
    command p (p.topology.composeCommand ++ ["rm", "-f"])]

def query (url : String) : Deed := .request ⟨.get, url, none⟩

/-- What a call comes to when it is answered as it has to be. -/
def deeds (p : SweepPlan) : Call → Language Deed
  | .provision spec => rendering p spec * {[bringUp p]}
  | .teardown => {takedown p}
  | .stopContainers names =>
    {if names = [] then [] else [command p (p.topology.dockerCommand ++ "kill" :: names)]}
  | .upload path mode =>
    {[command p (p.storage.command ++ StorageClient.uploadArgs path mode)]}
  | .pinStatus cid => {[query (p.endpoints.endpoints.cluster ++ "/pins/" ++ cid)]}
  | .downloadCount file description depth withMetrics =>
    {ds | ∃ d : Disk, ds = [command p (p.storage.command ++ StorageClient.countArgs file description
      depth ((client p).scratchPath d) withMetrics)]}
  | .triggerRepair request =>
    {[.request ⟨.post, p.endpoints.endpoints.repair ++ "/triggerCollabRepair",
      some request.toJson⟩]}
  | .repairDone => {[query (p.endpoints.endpoints.control ++ "/done")]}
  | .fetchMetrics => {[query (p.endpoints.endpoints.control ++ "/metrics")]}
  | .countActivePeers => {[query (p.endpoints.endpoints.control ++ "/peers")]}

/-- Events in which a topology is to be brought up, and whether it came up. The renderer comes
first, and if it fails nothing is brought up. -/
inductive Raises (p : SweepPlan) (spec : TopologySpec) : Bool → List Event → Prop
  | unrendered {e : Event} (hrender : [e.deed] ∈ rendering p spec) (hfail : e.endedWell = false) :
      Raises p spec false [e]
  | rendered {rs : List Event} {e : Event} (hrender : rs.map Event.deed ∈ rendering p spec)
      (hwell : ∀ r ∈ rs, r.endedWell = true) (hup : e.deed = bringUp p) :
      Raises p spec e.endedWell (rs ++ [e])

/-- The events of an exchange. -/
def Shows (p : SweepPlan) : Exchange → List Event → Prop
  | ⟨.provision spec, a⟩, es => Raises p spec (Except.isOk a) es
  | ⟨c, _⟩, es => es.map Event.deed ∈ deeds p c

/-- What a plan does to the disk in a trial: it gives out names of scratch files and removes such
files. -/
inductive Scratches (p : SweepPlan) (d : Disk) : Disk → Prop
  | spend : Scratches p d d.spend
  | discard (e : Disk) : Scratches p d (d.discard ((client p).scratchPath e))

/-! ### Every call has its events -/

/-- An act that answers a call, and has the events of the exchange. -/
def Answers (m : Machine σ) (p : SweepPlan) (c : Call) (act : World σ → c.Answer × World σ) :
    Prop :=
  ∀ w, ∃ es, Shows p ⟨c, (act w).1⟩ es ∧ World.Happens m (Scratches p) w es (act w).2

theorem isOk_discardOutput {ε α : Type} (r : Except ε α × World σ) :
    Except.isOk (ComposeTopology.discardOutput r).1 = Except.isOk r.1 := by
  rcases r with ⟨_ | _, w⟩ <;> rfl

theorem world_discardOutput {ε α : Type} (r : Except ε α × World σ) :
    (ComposeTopology.discardOutput r).2 = r.2 := by
  rcases r with ⟨_ | _, w⟩ <;> rfl

variable (m : Machine σ) (p : SweepPlan)

/-- The renderer is started at most once. -/
theorem length_le_of_mem_rendering {p : SweepPlan} {spec : TopologySpec} {ds : List Deed}
    (h : ds ∈ rendering p spec) : ds.length ≤ 1 := by
  rw [mem_rendering] at h
  split_ifs at h
  · rw [h]
    exact Nat.zero_le _
  · obtain ⟨argv, -, rfl⟩ := h
    exact le_rfl

/-- The renderer runs if there is one, and a plan without one is always rendered. -/
theorem render_happens (spec : TopologySpec) (w : World σ) :
    ∃ es, es.map Event.deed ∈ rendering p spec ∧
      (∀ e ∈ es, e.endedWell = Except.isOk ((topology p).render m spec w).1) ∧
      (es = [] → Except.isOk ((topology p).render m spec w).1 = true) ∧
      World.Happens m (Scratches p) w es ((topology p).render m spec w).2 := by
  unfold ComposeTopology.render
  by_cases hnone : p.topology.renderCommand = []
  · refine ⟨[], ?_, List.forall_mem_nil _, ?_, ?_⟩
    · rw [mem_rendering, if_pos hnone, List.map_nil]
    · simp [topology, hnone, Except.isOk, Except.toBool]
    · simpa [topology, hnone] using World.Happens.refl
  · have hargv : Template.render p.topology.renderCommand spec ≠ [] := by
      simpa [Template.render] using hnone
    obtain ⟨e, hdeed, hwell, hrun⟩ := World.runChecked_happens m (Scratches p) hargv
      (some p.baseDir) w
    refine ⟨[e], ?_, ?_, ?_, ?_⟩
    · rw [mem_rendering, if_neg hnone]
      exact ⟨_, Template.forall₂_filled_render p.topology.renderCommand spec,
        congrArg (fun d => [d]) hdeed⟩
    · intro f hf
      rw [List.mem_singleton.1 hf, hwell]
      simp [topology, hnone, line, isOk_discardOutput]
    · intro h
      cases h
    · simpa [topology, hnone, line, world_discardOutput] using hrun

theorem answers_provision (spec : TopologySpec) :
    Answers m p (.provision spec) ((bench m p).environment.provision spec) := by
  intro w
  obtain ⟨rs, hdeeds, hwell, hnone, hrender⟩ := render_happens m p spec w
  have hprovision : (bench m p).environment.provision spec w = (topology p).provision m spec w :=
    rfl
  rw [hprovision, ComposeTopology.provision]
  rcases hreply : (topology p).render m spec w with ⟨err | _, w₁⟩
  · rw [hreply] at hwell hnone hrender
    -- A plan without a renderer does not fail here, so there is one event.
    have hlength : rs.length ≤ 1 := by
      simpa using length_le_of_mem_rendering hdeeds
    match rs, hlength with
    | [], _ => cases hnone rfl
    | [e], _ => exact ⟨[e], .unrendered hdeeds (hwell e (List.mem_singleton_self e)), hrender⟩
  · rw [hreply] at hwell hnone hrender
    obtain ⟨e, hup, hended, hrun⟩ := World.run_happens m (Scratches p) (topology p).compose
      ["up", "-d"] (List.cons_ne_nil _ _) w₁
    have hraises : Raises p spec e.endedWell (rs ++ [e]) := .rendered hdeeds hwell hup
    dsimp only
    rcases hreply' : w₁.run m (topology p).compose ["up", "-d"] with ⟨err | _, w₂⟩
    · rw [hreply'] at hended hrun
      rw [hended] at hraises
      exact ⟨rs ++ [e], hraises, hrender.trans hrun⟩
    · rw [hreply'] at hended hrun
      rw [hended] at hraises
      exact ⟨rs ++ [e], hraises, (hrender.trans hrun).sleep _⟩

theorem answers_teardown :
    Answers m p .teardown fun w => ((), (bench m p).environment.teardown w) := by
  intro w
  obtain ⟨e₁, hdown, -, hrun₁⟩ := World.run_happens m (Scratches p) (topology p).compose
    ["down"] (List.cons_ne_nil _ _) w
  obtain ⟨e₂, hprune, -, hrun₂⟩ := World.run_happens m (Scratches p) (topology p).docker
    ["volume", "prune", "-f"] (List.cons_ne_nil _ _)
    (w.run m (topology p).compose ["down"]).2
  obtain ⟨e₃, hrm, -, hrun₃⟩ := World.run_happens m (Scratches p) (topology p).compose
    ["rm", "-f"] (List.cons_ne_nil _ _)
    ((w.run m (topology p).compose ["down"]).2.run m (topology p).docker
      ["volume", "prune", "-f"]).2
  refine ⟨[e₁, e₂, e₃], ?_, (hrun₁.trans hrun₂).trans hrun₃⟩
  show [e₁.deed, e₂.deed, e₃.deed] = takedown p
  rw [hdown, hprune, hrm]
  rfl

theorem answers_stopContainers (names : List String) :
    Answers m p (.stopContainers names) ((bench m p).environment.stopContainers names) := by
  intro w
  have hstop : (bench m p).environment.stopContainers names w =
      (topology p).stopContainers m names w := rfl
  rw [hstop, ComposeTopology.stopContainers]
  by_cases hnone : names = []
  · rw [if_pos hnone]
    refine ⟨[], ?_, .refl⟩
    show [] = if names = [] then [] else _
    rw [if_pos hnone]
  · obtain ⟨e, hkill, -, hrun⟩ := World.run_happens m (Scratches p) (topology p).docker
      ("kill" :: names) (List.cons_ne_nil _ _) w
    rw [if_neg hnone, world_discardOutput]
    refine ⟨[e], ?_, hrun⟩
    show [e.deed] = if names = [] then [] else _
    rw [if_neg hnone, hkill]
    rfl

theorem client_run_happens (args : List String) (hargs : args ≠ []) (w : World σ) :
    ∃ e : Event, e.deed = command p (p.storage.command ++ args) ∧
      World.Happens m (Scratches p) w [e] ((client p).run m args w).2 := by
  obtain ⟨e, hdeed, -, hrun⟩ := World.run_happens m (Scratches p) (client p).cli args hargs w
  refine ⟨e, hdeed, ?_⟩
  unfold StorageClient.run
  rcases hreply : w.run m (client p).cli args with ⟨_ | _, w₁⟩ <;> rwa [hreply] at hrun

theorem answers_upload (path : String) (mode : UploadMode) :
    Answers m p (.upload path mode) ((bench m p).gateway.upload path mode) := by
  intro w
  obtain ⟨e, hdeed, hrun⟩ := client_run_happens m p (StorageClient.uploadArgs path mode)
    (List.cons_ne_nil _ _) w
  refine ⟨[e], ?_, hrun⟩
  show [e.deed] = _
  rw [hdeed]

/-- The scratch file is the program's to write, and is removed if the program ends well. -/
theorem answers_downloadCount (file : String) (description : Option String) (depth : Nat)
    (withMetrics : Bool) : Answers m p (.downloadCount file description depth withMetrics)
      ((bench m p).gateway.downloadCount file description depth withMetrics) := by
  intro w
  obtain ⟨e, hdeed, hrun⟩ := client_run_happens m p
    (StorageClient.countArgs file description depth ((client p).scratchPath w.disk) withMetrics)
    (by simp [StorageClient.countArgs]) { w with disk := w.disk.spend }
  have hspend : World.Happens m (Scratches p) w [] { w with disk := w.disk.spend } :=
    World.Happens.refl.change .spend
  have hboth := hspend.trans hrun
  refine ⟨[e], ⟨w.disk, congrArg (fun d => [d]) hdeed⟩, ?_⟩
  have hdownload : (bench m p).gateway.downloadCount file description depth withMetrics w =
      (client p).downloadCount m file description depth withMetrics w := rfl
  rw [hdownload, StorageClient.downloadCount]
  dsimp only
  rcases hreply : (client p).run m (StorageClient.countArgs file description depth
    ((client p).scratchPath w.disk) withMetrics) { w with disk := w.disk.spend } with ⟨_ | _, w₁⟩
  · rw [hreply] at hboth
    exact hboth
  · rw [hreply] at hboth
    have hgone := hboth.change (Scratches.discard w.disk)
    dsimp only
    split
    · exact hgone
    · split <;> exact hgone

/-- A call that is one request. -/
theorem answers_fetch {c : Call} {act : World σ → c.Answer × World σ} (r : Request)
    (hact : ∀ w, (act w).2 = (w.fetch m r).2)
    (hshows : ∀ a (e : Event), e.deed = .request r → Shows p ⟨c, a⟩ [e]) : Answers m p c act := by
  intro w
  refine ⟨[.request r (w.fetch m r).1], hshows _ _ rfl, ?_⟩
  rw [hact]
  exact World.fetch_happens m (Scratches p) r w

theorem answers_pinStatus (cid : String) :
    Answers m p (.pinStatus cid) ((bench m p).gateway.pinStatus cid) :=
  answers_fetch m p _ (fun _ => rfl) fun _ _ he => congrArg (fun d => [d]) he

theorem answers_triggerRepair (request : RepairRequest) :
    Answers m p (.triggerRepair request) ((bench m p).gateway.triggerRepair request) :=
  answers_fetch m p _ (fun _ => rfl) fun _ _ he => congrArg (fun d => [d]) he

theorem answers_repairDone : Answers m p .repairDone (bench m p).gateway.repairDone :=
  answers_fetch m p _ (fun _ => rfl) fun _ _ he => congrArg (fun d => [d]) he

theorem answers_fetchMetrics : Answers m p .fetchMetrics (bench m p).gateway.fetchMetrics :=
  answers_fetch m p _ (fun _ => rfl) fun _ _ he => congrArg (fun d => [d]) he

theorem answers_countActivePeers :
    Answers m p .countActivePeers (bench m p).gateway.countActivePeers :=
  answers_fetch m p _ (fun _ => rfl) fun _ _ he => congrArg (fun d => [d]) he

/-! ### Every trial has the events of its exchanges -/

variable {m p}

/-- The events since a world are those of the exchanges that were noted. -/
def Logged (m : Machine σ) (p : SweepPlan) (u : World σ) (n : Noted (World σ)) : Prop :=
  ∃ parts, List.Forall₂ (Shows p) n.exchanges parts ∧
    World.Happens m (Scratches p) u parts.flatten n.world

theorem Logged.ask {c : Call} {act : World σ → c.Answer × World σ} (h : Answers m p c act)
    (u : World σ) : Keeping (Logged m p u) (Noted.ask c act) := by
  rintro n ⟨parts, hshows, hhappens⟩
  obtain ⟨es, hes, hact⟩ := h n.world
  refine ⟨parts ++ [es], List.rel_append hshows (.cons hes .nil), ?_⟩
  rw [List.flatten_append, List.flatten_singleton]
  exact hhappens.trans hact

theorem noted_keeps (u : World σ) : (bench m p).noted.Keeps (Logged m p u) where
  provision spec := Logged.ask (answers_provision m p spec) u
  teardown := Logged.ask (answers_teardown m p) u
  stopContainers names := Logged.ask (answers_stopContainers m p names) u
  upload path mode := Logged.ask (answers_upload m p path mode) u
  pinStatus cid := Logged.ask (answers_pinStatus m p cid) u
  downloadCount file description depth withMetrics :=
    Logged.ask (answers_downloadCount m p file description depth withMetrics) u
  triggerRepair request := Logged.ask (answers_triggerRepair m p request) u
  repairDone := Logged.ask (answers_repairDone m p) u
  fetchMetrics := Logged.ask (answers_fetchMetrics m p) u
  countActivePeers := Logged.ask (answers_countActivePeers m p) u
  sleep d n := by
    rintro ⟨parts, hshows, hhappens⟩
    exact ⟨parts, hshows, hhappens.sleep d⟩

theorem forall₂_append_left {α β : Type} {R : α → β → Prop} {as as' : List α} {bs : List β}
    (h : List.Forall₂ R (as ++ as') bs) :
    ∃ cs cs', bs = cs ++ cs' ∧ List.Forall₂ R as cs ∧ List.Forall₂ R as' cs' := by
  have htake := List.forall₂_take as.length h
  have hdrop := List.forall₂_drop as.length h
  rw [List.take_left] at htake
  rw [List.drop_left] at hdrop
  exact ⟨_, _, (List.take_append_drop _ _).symm, htake, hdrop⟩

/-- A trial of a plan that is over has had exchanges that tell of it, the events of these, and then
those of a takedown. -/
theorem trial_happens {c : Cell} {u v : World σ} {r : TrialRecord}
    (h : trialOf m p c u = (some r, v)) :
    ∃ fs parts down, Trial.Ending c.params.survivors
        (Trial.errands p.settings c.params c.payload) c.payload fs r ∧
      List.Forall₂ (Shows p) fs parts ∧ down.map Event.deed = takedown p ∧
      World.Happens m (Scratches p) u (parts.flatten ++ down) v := by
  obtain ⟨fs, hrun, htells⟩ := Trial.run_noted h []
  have hlogged : Logged m p u ⟨v, [] ++ fs ++ [⟨.teardown, ()⟩]⟩ := by
    have hkept := Trial.keeping_run (noted_keeps (m := m) (p := p) u) p.timings.maxProbes
      p.settings c.params c.payload ⟨u, []⟩ ⟨[], .nil, .refl⟩
    rwa [hrun] at hkept
  obtain ⟨parts, hshows, hhappens⟩ := hlogged
  rw [List.nil_append] at hshows
  obtain ⟨parts, downs, rfl, hfs, hdowns⟩ := forall₂_append_left hshows
  obtain ⟨down, _, hdown, hnil, rfl⟩ := List.forall₂_cons_left_iff.1 hdowns
  obtain rfl := List.forall₂_nil_left_iff.1 hnil
  refine ⟨fs, parts, down, .of_tells htells (congrArg Prod.fst h), hfs, hdown, ?_⟩
  rwa [List.flatten_append, List.flatten_singleton] at hhappens

end Campaign

end FaultSweep
