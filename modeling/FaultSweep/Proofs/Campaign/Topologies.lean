import FaultSweep.Proofs.Campaign.Provenance

/-!
# One topology at a time

Between two topologies of a campaign there is always a takedown, and none is left when the campaign
is over, whichever programs fail and whether or not the ledger can be written.
-/

namespace FaultSweep

namespace Campaign

variable {σ : Type} {m : Machine σ} {fuel : Nat} {path : String} {o : SweepOverrides}
  {p : SweepPlan} {cs : List Cell} {l : Ledger} {w : World σ}

/-- A campaign starts by taking down what was left. -/
theorem happens_outset (m : Machine σ) (p : SweepPlan) (l : Ledger) (w : World σ) :
    ∃ es ∈ fall p, World.Happens m (Handles p) w es (outset m p l w).world := by
  obtain ⟨es, hfall, hhappens⟩ := answers_teardown m p w
  exact ⟨es, hfall, hhappens.mono fun _ _ => .scratches⟩

theorem Conducted.mem_bout {c : Cell} {u v : World σ} {es : List Event} {r : TrialRecord}
    (h : Conducted m p c u es r v) : es ∈ bout p * fall p := by
  obtain ⟨body, down, rfl, hbody, hdown, -⟩ := h.events
  exact Language.append_mem_mul hbody hdown

/-- Trial by trial there is one topology, and it is taken down. -/
theorem Account.mem_bouts {start q : Progress (World σ)} {ts : List Trip}
    (h : Account m p cs start ts q) :
    ts.flatMap Trip.events ∈ (bout p * fall p) ^ ts.length := by
  refine Language.mem_pow.2 ⟨ts.map Trip.events, rfl, List.length_map _, ?_⟩
  intro es hes
  obtain ⟨t, ht, rfl⟩ := List.mem_map.1 hes
  obtain ⟨-, q, v, -, hconducted⟩ := h.made t ht
  exact hconducted.mem_bout

/-- Also the trial whose record could not be written has taken its topology down. -/
theorem Concludes.bouts {start last : Progress (World σ)} {halt : Option Halt}
    (h : Concludes m p cs start (halt, last)) (hstart : start.summary.attempts = 0)
    (hhalt : halt ≠ some .unfinished) :
    ∃ es ∈ (bout p * fall p) ^ last.summary.attempts,
      World.Happens m (Handles p) start.world es last.world := by
  cases h with
  | @done q hreach =>
    obtain ⟨ts, haccount⟩ := exists_account hreach
    have hattempts : q.summary.attempts = ts.length := by
      rw [haccount.attempts, hstart, Nat.zero_add]
    refine ⟨ts.flatMap Trip.events, ?_, haccount.happens⟩
    show _ ∈ (bout p * fall p) ^ q.summary.attempts
    rw [hattempts]
    exact haccount.mem_bouts
  | failed hreach hc hconducted hkeep hwrite =>
    rename_i q c es r v x d
    obtain ⟨ts, haccount⟩ := exists_account hreach
    have hattempts : q.summary.attempts = ts.length := by
      rw [haccount.attempts, hstart, Nat.zero_add]
    have hhappens := haccount.happens.trans (hconducted.happens.mono fun _ _ => .scratches)
    have hwritten := happens_replace hhappens (q.ledger.push c.key r).encode
    rw [replace_backend, hwrite] at hwritten
    refine ⟨ts.flatMap Trip.events ++ es, ?_, hwritten⟩
    show _ ∈ (bout p * fall p) ^ (q.summary.attempts + 1)
    rw [hattempts, pow_succ]
    exact Language.append_mem_mul haccount.mem_bouts hconducted.mem_bout
  | overflows hreach =>
    obtain ⟨ts, haccount⟩ := exists_account hreach
    refine ⟨ts.flatMap Trip.events, ?_, haccount.happens⟩
    rw [haccount.attempts, hstart, Nat.zero_add]
    exact haccount.mem_bouts
  | unfinished => exact absurd rfl hhalt

/-- A run that returns tried nothing if its plan, its cells or its ledger were found wrong.
Otherwise it tried the commands of a takedown, and then for each of its trials those of one topology,
brought up once at most and worked on only after it came up, and those of a takedown again, whatever
came of each of them; and so it was also if it returns because its ledger could not be written. -/
theorem one_topology_at_a_time {r : Except Fatal SweepResult} {w' : World σ}
    (h : run m fuel path o w = (.ok r, w')) :
    (∃ e, prepare path o w = .error e ∧ r = .error e ∧ w' = w) ∨
    ∃ p cs l es effects, prepare path o w = .ok (p, cs, l) ∧
      World.Happens m (Handles p) w es w' ∧
      es ∈ fall p * (bout p * fall p) ^ (sweep m fuel p cs l w).2.summary.attempts ∧
      w'.trace = w.trace ++ effects ∧ effects.map Effect.deed = es.map Event.deed ∧
      ((∃ res, r = .ok res ∧ res.summary = (sweep m fuel p cs l w).2.summary) ∨
        ∃ x, r = .error (unwritten p x)) := by
  rcases sweep_of_run h with ⟨e, hprepare, hr, hw⟩ |
    ⟨p, cs, l, halt, last, hprepare, hsweep, rfl, hr⟩
  · exact .inl ⟨e, hprepare, hr, hw⟩
  · have hconcludes := sweep_concludes m fuel p cs l w
    rw [hsweep] at hconcludes
    have hhalt : halt ≠ some .unfinished := by
      rintro rfl
      rcases hr with ⟨hnone, -⟩ | ⟨e, hfailed, -⟩
      · cases hnone
      · cases hfailed
    obtain ⟨down, hdown, hstart⟩ := happens_outset m p l w
    obtain ⟨es, hes, hhappens⟩ := hconcludes.bouts rfl hhalt
    obtain ⟨effects, htrace, hdeeds⟩ := (hstart.trans hhappens).traced
    refine .inr ⟨p, cs, l, down ++ es, effects, hprepare, hstart.trans hhappens, ?_, htrace, hdeeds,
      ?_⟩
    · rw [hsweep]
      exact Language.append_mem_mul hdown hes
    · rcases hr with ⟨rfl, rfl⟩ | ⟨e, rfl, rfl⟩
      · exact .inl ⟨_, rfl, by rw [hsweep]⟩
      · cases hconcludes with
        | failed => exact .inr ⟨_, rfl⟩

/-- Every program ends with code 1, and no request is answered. -/
def brokenMachine : Machine Unit where
  launch _ _ d s := (.ok ⟨some 1, .empty, .empty⟩, d, s)
  launchCost _ _ _ _ := seconds 1
  fetch _ s := (.failed "no answer", s)
  fetchCost _ _ := seconds 1

/-- No topology comes up for either of the two cells, and each is taken down. -/
theorem broken_topologies_are_taken_down : ∃ r w' p es,
    run brokenMachine 0 "plan.yaml" ⟨none, none, some 1⟩ (smallWorld fun _ => none) =
      (.ok (.ok r), w') ∧ r.summary = ⟨1, 2, 0, 2, 2⟩ ∧
    World.Happens brokenMachine (Handles p) (smallWorld fun _ => none) es w' ∧
    es ∈ fall p * (bout p * fall p) ^ 2 := by
  obtain ⟨res, w', hrun, hsmall⟩ : ∃ res w', run brokenMachine 0 "plan.yaml" ⟨none, none, some 1⟩
      (smallWorld fun _ => none) = (.ok (.ok res), w') ∧ res.summary = ⟨1, 2, 0, 2, 2⟩ :=
    exists_of_summary (by decide +kernel)
  rcases one_topology_at_a_time hrun with ⟨e, -, hr, -⟩ |
    ⟨p, cs, l, es, effects, -, hhappens, hes, -, -, ⟨res', hr, hsummary⟩ | ⟨x, hr⟩⟩
  · cases hr
  · cases hr
    refine ⟨res, w', p, es, hrun, hsmall, hhappens, ?_⟩
    rwa [← hsummary, hsmall] at hes
  · cases hr

end Campaign

end FaultSweep
