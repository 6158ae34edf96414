import FaultSweep.World

/-!
# What happens in a world

A world comes to another by events: programs that it was tried to start, and requests that were
sent. They take time, more time passes between them, and the one who tries them changes the disk in
ways of its own.
-/

namespace FaultSweep

/-- What can be tried: to start a program, or to send a request. -/
inductive Deed where
  | launch (argv : List String) (workDir : Option String)
  | request (r : Request)

/-- Something that was tried, and what came of it. -/
inductive Event where
  | launch (argv : List String) (workDir : Option String) (reply : Except IoError Exit)
  | request (r : Request) (reply : Fetched)

def Effect.deed : Effect → Deed
  | .launch argv workDir _ => .launch argv workDir
  | .request r => .request r

namespace Event

def deed : Event → Deed
  | .launch argv workDir _ => .launch argv workDir
  | .request r _ => .request r

/-- Whether it was a program that ran and said at its end that all was well. -/
def endedWell : Event → Bool
  | .launch _ _ (.ok x) => x.code = some 0
  | _ => false

end Event

namespace World

variable {σ : Type} {m : Machine σ} {own own' : Disk → Disk → Prop} {u v w : World σ}
  {es fs : List Event}

/-- The events through which one world comes to another, where the disk may also change as `own`
says. -/
inductive Happens (m : Machine σ) (own : Disk → Disk → Prop) (w : World σ) :
    List Event → World σ → Prop
  | refl : Happens m own w [] w
  | launch {es : List Event} {v : World σ} (h : Happens m own w es v) (argv : List String)
      (dir : Option String) :
      Happens m own w (es ++ [.launch argv dir (v.spawn m argv dir).1]) (v.spawn m argv dir).2
  | request {es : List Event} {v : World σ} (h : Happens m own w es v) (r : Request) :
      Happens m own w (es ++ [.request r (v.fetch m r).1]) (v.fetch m r).2
  | sleep {es : List Event} {v : World σ} (h : Happens m own w es v) (d : Nat) :
      Happens m own w es (clockOf.sleep d v)
  | change {es : List Event} {v : World σ} {d : Disk} (h : Happens m own w es v)
      (hd : own v.disk d) : Happens m own w es { v with disk := d }

namespace Happens

theorem trans (h : Happens m own u es v) (h' : Happens m own v fs w) :
    Happens m own u (es ++ fs) w := by
  induction h' with
  | refl => rwa [List.append_nil]
  | launch _ argv dir ih =>
    rw [← List.append_assoc]
    exact ih.launch argv dir
  | request _ r ih =>
    rw [← List.append_assoc]
    exact ih.request r
  | sleep _ d ih => exact ih.sleep d
  | change _ hd ih => exact ih.change hd

theorem mono (h : Happens m own u es v) (hown : ∀ d d', own d d' → own' d d') :
    Happens m own' u es v := by
  induction h with
  | refl => exact .refl
  | launch _ argv dir ih => exact ih.launch argv dir
  | request _ r ih => exact ih.request r
  | sleep _ d ih => exact ih.sleep d
  | change _ hd ih => exact ih.change (hown _ _ hd)

end Happens

/-! ### What is left of the events -/

theorem trace_spawn (m : Machine σ) (argv : List String) (dir : Option String) (w : World σ) :
    ∃ started, (w.spawn m argv dir).2.trace = w.trace ++ [.launch argv dir started] := by
  unfold spawn
  dsimp only
  split
  · exact ⟨none, rfl⟩
  · split
    · exact ⟨none, rfl⟩
    · split
      · exact ⟨none, rfl⟩
      · exact ⟨_, rfl⟩

/-- A program changes the disk if it is started at all. -/
theorem disk_spawn (m : Machine σ) (argv : List String) (dir : Option String) (w : World σ) :
    (w.spawn m argv dir).2.disk = w.disk ∨
      ∃ l, (w.spawn m argv dir).2.disk = (m.launch argv l w.disk w.state).2.1 := by
  unfold spawn
  dsimp only
  split
  · exact .inl rfl
  · split
    · exact .inl rfl
    · next l _ =>
      refine .inr ⟨l, ?_⟩
      split
      · next hlaunch => rw [hlaunch]; rfl
      · next hlaunch => rw [hlaunch]; rfl

/-- What it takes to try a program is not more than the clock can show. -/
theorem clock_spawn_le (m : Machine σ) (argv : List String) (dir : Option String) {w : World σ}
    (hw : w.clock.elapsed ≤ VirtualClock.limit) :
    (w.spawn m argv dir).2.clock.elapsed ≤ VirtualClock.limit := by
  unfold spawn
  dsimp only
  split
  · exact hw
  · split
    · exact hw
    · split <;> exact VirtualClock.elapsed_advance_le _ _

namespace Happens

/-- The trace grows by what was tried. -/
theorem traced (h : Happens m own w es v) :
    ∃ fs, v.trace = w.trace ++ fs ∧ fs.map Effect.deed = es.map Event.deed := by
  induction h with
  | refl => exact ⟨[], by simp⟩
  | @launch es v _ argv dir ih =>
    obtain ⟨fs, htrace, hdeeds⟩ := ih
    obtain ⟨started, hspawn⟩ := trace_spawn m argv dir v
    refine ⟨fs ++ [.launch argv dir started], ?_, ?_⟩
    · rw [hspawn, htrace, List.append_assoc]
    · rw [List.map_append, List.map_append, hdeeds]
      rfl
  | @request es v _ r ih =>
    obtain ⟨fs, htrace, hdeeds⟩ := ih
    refine ⟨fs ++ [.request r], ?_, ?_⟩
    · rw [show (v.fetch m r).2.trace = v.trace ++ [.request r] from rfl, htrace, List.append_assoc]
    · rw [List.map_append, List.map_append, hdeeds]
      rfl
  | sleep _ d ih => exact ih
  | change _ _ ih => exact ih

/-- What the programs among the events keep of the disk, and the one who tries them, is kept. -/
theorem keeps_disk {I : Disk → Prop} (h : Happens m own w es v)
    (hlaunch : ∀ argv dir reply, .launch argv dir reply ∈ es →
      ∀ l d s, I d → I (m.launch argv l d s).2.1)
    (hown : ∀ d d', own d d' → I d → I d') (hw : I w.disk) : I v.disk := by
  induction h with
  | refl => exact hw
  | @launch es v _ argv dir ih =>
    have hv := ih fun argv dir reply he => hlaunch argv dir reply (List.mem_append_left _ he)
    rcases disk_spawn m argv dir v with hdisk | ⟨l, hdisk⟩
    · rwa [hdisk]
    · rw [hdisk]
      exact hlaunch argv dir _ (List.mem_append_right _ (List.mem_singleton_self _)) l _ _ hv
  | request _ r ih =>
    exact ih fun argv dir reply he => hlaunch argv dir reply (List.mem_append_left _ he)
  | sleep _ d ih => exact ih hlaunch
  | change _ hd ih => exact hown _ _ hd (ih hlaunch)

/-- A clock does not go past its limit. -/
theorem clock_le (h : Happens m own w es v) (hw : w.clock.elapsed ≤ VirtualClock.limit) :
    v.clock.elapsed ≤ VirtualClock.limit := by
  induction h with
  | refl => exact hw
  | launch _ argv dir ih => exact clock_spawn_le m argv dir ih
  | @request _ v _ r _ => exact VirtualClock.elapsed_advance_le _ (m.fetchCost r v.state)
  | sleep _ d _ => exact VirtualClock.elapsed_advance_le _ d
  | change _ _ ih => exact ih

end Happens

/-! ### Events of one command or request -/

theorem runChecked_happens (m : Machine σ) (own : Disk → Disk → Prop) {argv : List String}
    (hargv : argv ≠ []) (dir : Option String) (w : World σ) :
    ∃ e : Event, e.deed = .launch argv dir ∧
      e.endedWell = Except.isOk (w.runChecked m argv dir).1 ∧
      Happens m own w [e] (w.runChecked m argv dir).2 := by
  have hspawn : Happens m own w [.launch argv dir (w.spawn m argv dir).1]
      (w.spawn m argv dir).2 := Happens.refl.launch argv dir
  refine ⟨.launch argv dir (w.spawn m argv dir).1, rfl, ?_, ?_⟩
  · unfold runChecked
    rw [if_neg hargv]
    rcases w.spawn m argv dir with ⟨_ | x, v⟩
    · rfl
    · by_cases hx : x.code = some 0 <;> simp [Event.endedWell, hx, Except.isOk, Except.toBool]
  · unfold runChecked
    rw [if_neg hargv]
    rcases hreply : w.spawn m argv dir with ⟨_ | x, v⟩
    · rw [hreply] at hspawn
      exact hspawn
    · rw [hreply] at hspawn
      by_cases hx : x.code = some 0 <;> simpa [hx] using hspawn

theorem run_happens (m : Machine σ) (own : Disk → Disk → Prop) (c : CommandLine)
    (args : List String) (hargs : args ≠ []) (w : World σ) :
    ∃ e : Event, e.deed = .launch (c.argv ++ args) c.workDir ∧
      e.endedWell = Except.isOk (w.run m c args).1 ∧ Happens m own w [e] (w.run m c args).2 :=
  runChecked_happens m own (List.append_ne_nil_of_right_ne_nil _ hargs) c.workDir w

theorem fetch_happens (m : Machine σ) (own : Disk → Disk → Prop) (r : Request) (w : World σ) :
    Happens m own w [.request r (w.fetch m r).1] (w.fetch m r).2 :=
  Happens.refl.request r

end World

end FaultSweep
