import Mathlib.Data.List.Infix
import FaultSweep.Proofs.Trial.Invariants

/-!
# Waits and their deadlines

A wait is followed probe by probe, on a clock that moves in the sleeps and in the probes alike. As
every sleep is cut to the time that is left, no probe begins after the deadline, and what is waited
beyond it is at most what the last probe takes to be answered.
-/

namespace FaultSweep

/-- A probe that was made: when it began, how it was answered, and how long that took. -/
structure Probing where
  began : Nat
  reply : Timed (Except ProbeError Bool)

namespace Probing

def ended (p : Probing) : Nat := p.began + p.reply.cost

def agrees (p : Probing) : Bool := Probe.holds p.reply.value

end Probing

theorem Probe.holds_iff {reply : Except ProbeError Bool} :
    Probe.holds reply = true ↔ reply = .ok true := by
  rcases reply with _ | _ | _ <;> simp [Probe.holds]

/-! ### The course of a wait -/

/-- The probes of a wait that may last until `deadline`, the first of them made at the instant in
front. Each but the last is refused before the deadline, and the next is made an interval later, or
when the time is over. -/
inductive Course (interval deadline : Nat) : Nat → List Probing → Prop
  | last {p : Probing} (h : p.agrees = true ∨ deadline ≤ p.ended) :
      Course interval deadline p.began [p]
  | next {p : Probing} {ps : List Probing} (hrefused : p.agrees = false)
      (hearly : p.ended < deadline)
      (h : Course interval deadline (p.ended + min interval (deadline - p.ended)) ps) :
      Course interval deadline p.began (p :: ps)

namespace Course

variable {interval deadline now : Nat} {ps : List Probing}

theorem head (h : Course interval deadline now ps) :
    ps.head?.map Probing.began = some now := by
  cases h <;> rfl

theorem paced (h : Course interval deadline now ps) : ps.IsChain fun p q =>
    q.began = p.ended + min interval (deadline - p.ended) := by
  induction h with
  | last => exact .singleton _
  | next _ _ h ih =>
    refine List.isChain_cons.2 ⟨fun q hq => ?_, ih⟩
    have hbegan := h.head
    rw [Option.mem_def.1 hq] at hbegan
    exact Option.some.inj hbegan

theorem in_time (h : Course interval deadline now ps) (hnow : now ≤ deadline) :
    ∀ p ∈ ps, p.began ≤ deadline := by
  induction h with
  | last => simpa using hnow
  | next _ hearly _ ih =>
    rw [List.forall_mem_cons]
    exact ⟨hnow, ih (by omega)⟩

/-- All but the last are refused in time. -/
theorem split (h : Course interval deadline now ps) : ∃ earlier last, ps = earlier ++ [last] ∧
    (∀ p ∈ earlier, p.agrees = false ∧ p.ended < deadline) ∧
    (last.agrees = true ∨ deadline ≤ last.ended) := by
  induction h with
  | @last p h => exact ⟨[], p, rfl, by simp, h⟩
  | @next p ps hrefused hearly _ ih =>
    obtain ⟨earlier, last, rfl, hearlier, hlast⟩ := ih
    exact ⟨p :: earlier, last, rfl, by simpa using ⟨⟨hrefused, hearly⟩, hearlier⟩, hlast⟩

end Course

/-! ### Conditions that are answered from a list -/

/-- A condition that is asked for again and again. -/
structure Inquiry where
  clock : VirtualClock
  /-- What a clock that has no last reading would show. -/
  due : Nat
  replies : List (Timed (Except ProbeError Bool))
  made : List Probing

namespace Inquiry

def start (now : Nat) (replies : List (Timed (Except ProbeError Bool))) : Inquiry :=
  ⟨⟨now⟩, now, replies, []⟩

def pass (d : Nat) (w : Inquiry) : Inquiry :=
  { w with clock := w.clock.advance d, due := w.due + d }

def clockOf : Clock Inquiry where
  now w := w.clock.elapsed
  sleep := pass

/-- Takes the next reply and the time it needs. Without one, the answer is no. -/
def probe : Probe Inquiry := fun w => match w.replies with
  | [] => (.ok false, w)
  | a :: rest =>
    (a.value, pass a.cost { w with replies := rest, made := w.made ++ [⟨w.clock.elapsed, a⟩] })

/-- The wait from an instant on, with one probe at most for every reply. -/
def await (spec : PollSpec) (now : Nat) (replies : List (Timed (Except ProbeError Bool))) :
    Option PollOutcome × Inquiry :=
  awaitCondition replies.length clockOf spec probe (start now replies)

/-- As long as it has not stopped, the clock shows what is due. -/
def OnTime (w : Inquiry) : Prop := w.clock.elapsed = min VirtualClock.limit w.due

theorem OnTime.elapsed_eq {w : Inquiry} (h : w.OnTime) (hdue : w.due ≤ VirtualClock.limit) :
    w.clock.elapsed = w.due := by
  rw [h, Nat.min_eq_right hdue]

theorem OnTime.passed {w : Inquiry} (h : w.OnTime) (d : Nat) : (w.pass d).OnTime := by
  unfold OnTime at h ⊢
  simp only [pass, VirtualClock.elapsed_advance, h]
  omega

theorem due_le_pollFrom (spec : PollSpec) (start fuel : Nat) (probes : UInt32) (w : Inquiry) :
    w.due ≤ (pollFrom clockOf spec probe start fuel probes w).2.due := by
  refine Trial.keeping_pollFrom (I := fun v => w.due ≤ v.due) ?_ ?_ spec start fuel probes w le_rfl
  · intro d v hv
    exact hv.trans (Nat.le_add_right _ _)
  · intro v hv
    unfold probe
    split
    · exact hv
    · exact hv.trans (Nat.le_add_right _ _)

theorem due_probe_le_pollFrom (spec : PollSpec) (start fuel : Nat) (probes : UInt32) (w : Inquiry) :
    (probe w).2.due ≤ (pollFrom clockOf spec probe start (fuel + 1) probes w).2.due := by
  rw [pollFrom]
  dsimp only
  split_ifs
  · exact le_rfl
  · exact le_rfl
  · exact le_trans (b := (clockOf.sleep _ _).due) (Nat.le_add_right _ _)
      (due_le_pollFrom spec start fuel (probes + 1) _)

/-- The probe that is made next, if it gets a reply. -/
def asking (w : Inquiry) (a : Timed (Except ProbeError Bool)) : Probing := ⟨w.due, a⟩

/-- The inquiry after a probe, with the replies that are left. -/
def answered (w : Inquiry) (p : Probing) (rest : List (Timed (Except ProbeError Bool))) : Inquiry :=
  pass p.reply.cost { w with replies := rest, made := w.made ++ [p] }

/-- What comes of a probe that is answered before the clock stops: the wait is over, or it goes on
after an interval, or when the time is over. -/
theorem pollFrom_cons {spec : PollSpec} {start : Nat} (fuel : Nat) (probes : UInt32) {w : Inquiry}
    {a : Timed (Except ProbeError Bool)} {rest : List (Timed (Except ProbeError Bool))}
    (hreplies : w.replies = a :: rest) (hw : w.OnTime) (hstart : start ≤ w.due)
    (hlimit : (w.asking a).ended ≤ VirtualClock.limit) :
    clockOf.now (w.answered (w.asking a) rest) = (w.asking a).ended ∧
      pollFrom clockOf spec probe start (fuel + 1) probes w =
        if (w.asking a).agrees then (some (.satisfied (probes + 1) ((w.asking a).ended - start)),
          w.answered (w.asking a) rest)
        else if start + spec.timeout ≤ (w.asking a).ended then
          (some (.timedOut (probes + 1) ((w.asking a).ended - start)),
            w.answered (w.asking a) rest)
        else pollFrom clockOf spec probe start fuel (probes + 1)
          ((w.answered (w.asking a) rest).pass
            (min spec.interval (start + spec.timeout - (w.asking a).ended))) := by
  have hbegan : w.clock.elapsed = w.due := hw.elapsed_eq ((Nat.le_add_right _ _).trans hlimit)
  have hprobe : probe w = (a.value, w.answered (w.asking a) rest) := by
    simp only [probe, hreplies, hbegan]
    rfl
  have hnow : clockOf.now (w.answered (w.asking a) rest) = (w.asking a).ended :=
    (hw.passed a.cost).elapsed_eq hlimit
  have hbegins : start ≤ (w.asking a).ended := hstart.trans (Nat.le_add_right _ _)
  have hover : spec.timeout ≤ (w.asking a).ended - start ↔
      start + spec.timeout ≤ (w.asking a).ended := by omega
  have hleft : spec.timeout - ((w.asking a).ended - start) =
      start + spec.timeout - (w.asking a).ended := by omega
  refine ⟨hnow, ?_⟩
  rw [pollFrom, hprobe]
  simp only [hnow, hover, hleft]
  rfl

/-- A wait that is over made the probes of a course, took its replies in order, and ended as the
last of them says. -/
theorem course_pollFrom {spec : PollSpec} {start fuel : Nat} {probes : UInt32} {w w' : Inquiry}
    {o : PollOutcome} (hpoll : pollFrom clockOf spec probe start fuel probes w = (some o, w'))
    (hfuel : fuel ≤ w.replies.length) (hw : w.OnTime) (hstart : start ≤ w.due)
    (hdue : w'.due ≤ VirtualClock.limit) :
    ∃ ps last, w'.made = w.made ++ ps ∧ w.replies = ps.map Probing.reply ++ w'.replies ∧
      Course spec.interval (start + spec.timeout) w.due ps ∧ ps.getLast? = some last ∧
      o.isSatisfied = last.agrees ∧ o.waited = last.ended - start ∧
      w'.clock.elapsed = last.ended := by
  induction fuel generalizing probes w with
  | zero => cases hpoll
  | succ fuel ih =>
    cases hreplies : w.replies with
    | nil => simp [hreplies] at hfuel
    | cons a rest =>
      have hlater := due_probe_le_pollFrom spec start fuel probes w
      rw [hpoll, show (probe w).2.due = (w.asking a).ended by simp only [probe, hreplies]; rfl]
        at hlater
      -- The clock has not stopped after the probe, because it has not at the end of the wait.
      obtain ⟨hnow, hnext⟩ := pollFrom_cons fuel probes hreplies hw hstart (hlater.trans hdue)
      rw [hnext] at hpoll
      split_ifs at hpoll with hyes hover
      · obtain ⟨rfl, rfl⟩ : _ ∧ w.answered (w.asking a) rest = w' := by simpa using hpoll
        exact ⟨[w.asking a], _, rfl, rfl, .last (.inl hyes), rfl, hyes.symm, rfl, hnow⟩
      · obtain ⟨rfl, rfl⟩ : _ ∧ w.answered (w.asking a) rest = w' := by simpa using hpoll
        have hno : (w.asking a).agrees = false := by simpa using hyes
        exact ⟨[w.asking a], _, rfl, rfl, .last (.inr hover), rfl, hno.symm, rfl, hnow⟩
      · have hno : (w.asking a).agrees = false := by simpa using hyes
        have hbegins : start ≤ (w.asking a).ended := hstart.trans (Nat.le_add_right _ _)
        have hfuel' : fuel ≤ rest.length := by simpa [hreplies] using hfuel
        obtain ⟨ps, last, hmade, hreplies', hcourse, hlast, hend⟩ :=
          ih hpoll hfuel' ((hw.passed a.cost).passed _) (le_trans hbegins (Nat.le_add_right _ _))
        refine ⟨w.asking a :: ps, last, ?_, congrArg (a :: ·) hreplies',
          .next hno (by omega) hcourse, by simp [List.getLast?_cons, hlast], hend⟩
        calc w'.made = w.made ++ [w.asking a] ++ ps := hmade
          _ = w.made ++ w.asking a :: ps := by simp

/-! ### Failing probes -/

/-- The same reply, or a refusal in the place of a failure. -/
def Softened (a a' : Timed (Except ProbeError Bool)) : Prop :=
  a' = a ∨ ∃ e, a.value = .error e ∧ a' = ⟨a.cost, .ok false⟩

/-- Worlds that differ in failures only. -/
structure Alike (w w' : Inquiry) : Prop where
  clock : w'.clock = w.clock
  due : w'.due = w.due
  replies : List.Forall₂ Softened w.replies w'.replies
  made : w'.made.map Probing.began = w.made.map Probing.began

theorem Softened.cost {a a' : Timed (Except ProbeError Bool)} (h : Softened a a') :
    a'.cost = a.cost := by
  rcases h with rfl | ⟨e, -, rfl⟩
  · rfl
  · rfl

theorem Softened.holds {a a' : Timed (Except ProbeError Bool)} (h : Softened a a') :
    Probe.holds a'.value = Probe.holds a.value := by
  rcases h with rfl | ⟨e, he, rfl⟩
  · rfl
  · simp [he, Probe.holds]

theorem Alike.passed {w w' : Inquiry} (h : Alike w w') (d : Nat) : Alike (w.pass d) (w'.pass d) :=
  ⟨by simp [pass, h.clock], by simp [pass, h.due], h.replies, h.made⟩

theorem alike_probe {w w' : Inquiry} (h : Alike w w') :
    Probe.holds (probe w').1 = Probe.holds (probe w).1 ∧
      Alike (probe w).2 (probe w').2 := by
  obtain ⟨hclock, hdue, hreplies, hmade⟩ := h
  rcases w with ⟨clock, due, replies, made⟩
  rcases w' with ⟨clock', due', replies', made'⟩
  cases hreplies with
  | nil => exact ⟨rfl, hclock, hdue, .nil, hmade⟩
  | @cons a a' rest rest' ha hrest =>
    have hsame : Alike ⟨clock, due, rest, made ++ [⟨clock.elapsed, a⟩]⟩
        ⟨clock', due', rest', made' ++ [⟨clock'.elapsed, a'⟩]⟩ :=
      ⟨hclock, hdue, hrest, by simp_all⟩
    refine ⟨ha.holds, ?_⟩
    have hpassed := hsame.passed a.cost
    simpa only [probe, ha.cost] using hpassed

theorem alike_pollFrom {w w' : Inquiry} (h : Alike w w') (spec : PollSpec)
    (start fuel : Nat) (probes : UInt32) :
    (pollFrom clockOf spec probe start fuel probes w').1 =
        (pollFrom clockOf spec probe start fuel probes w).1 ∧
      Alike (pollFrom clockOf spec probe start fuel probes w).2
        (pollFrom clockOf spec probe start fuel probes w').2 := by
  induction fuel generalizing probes w w' with
  | zero => exact ⟨rfl, h⟩
  | succ fuel ih =>
    obtain ⟨hholds, hprobed⟩ := alike_probe h
    have hnow : clockOf.now (probe w').2 = clockOf.now (probe w).2 :=
      congrArg VirtualClock.elapsed hprobed.clock
    simp only [pollFrom, hholds, hnow]
    split_ifs
    · exact ⟨rfl, hprobed⟩
    · exact ⟨rfl, hprobed⟩
    · exact ih (hprobed.passed _) _

/-! ### Waits as a whole -/

/-- A wait from the instant `now` on that honours its deadline, with its outcome, the probes before
the last one and the last one. -/
structure Timely (spec : PollSpec) (now : Nat) (o : PollOutcome) (earlier : List Probing)
    (last : Probing) : Prop where
  first : (earlier ++ [last]).head?.map Probing.began = some now
  /-- The time between two probes is the interval, or what is left of the time if that is less. -/
  paced : (earlier ++ [last]).IsChain fun p q =>
    q.began = p.ended + min spec.interval (now + spec.timeout - p.ended)
  in_time : ∀ p ∈ earlier ++ [last], p.began ≤ now + spec.timeout
  /-- So a probe on the deadline can only be the last. -/
  refused : ∀ p ∈ earlier, p.reply.value ≠ .ok true ∧ p.ended < now + spec.timeout
  satisfied : o.isSatisfied = true ↔ last.reply.value = .ok true
  waited : o.waited = last.ended - now
  timedOut : o.isSatisfied = false → spec.timeout ≤ o.waited ∧
    o.waited ≤ spec.timeout + last.reply.cost ∧
    (o.waited = spec.timeout ↔ last.ended = now + spec.timeout) ∧
    (last.reply.cost = 0 → o.waited = spec.timeout)

theorem Course.timely {spec : PollSpec} {now : Nat} {o : PollOutcome} {ps : List Probing}
    {last : Probing} (h : Course spec.interval (now + spec.timeout) now ps)
    (hlast : ps.getLast? = some last) (hsatisfied : o.isSatisfied = last.agrees)
    (hwaited : o.waited = last.ended - now) :
    ∃ earlier, ps = earlier ++ [last] ∧ Timely spec now o earlier last := by
  obtain ⟨earlier, last', rfl, hearlier, hend⟩ := h.split
  obtain rfl : last' = last := by simpa using hlast
  have hbegan := h.in_time (Nat.le_add_right _ _)
  refine ⟨earlier, rfl, h.head, h.paced, hbegan, ?_, ?_, hwaited, ?_⟩
  · intro p hp
    obtain ⟨hrefused, hearly⟩ := hearlier p hp
    refine ⟨fun hyes => ?_, hearly⟩
    rw [Probing.agrees, Probe.holds_iff.2 hyes] at hrefused
    cases hrefused
  · rw [hsatisfied]
    exact Probe.holds_iff
  · intro hno
    have hover : now + spec.timeout ≤ last'.ended :=
      hend.resolve_left (by simp [← hsatisfied, hno])
    have hlanded := hbegan last' (by simp)
    rw [hwaited]
    unfold Probing.ended at hover ⊢
    exact ⟨by omega, by omega, by omega, fun hcost => by omega⟩

/-- A wait on a clock that does not stop honours its deadline: it is answered from the replies in
order, the clock shows in the end when the last probe was answered, and failures count as refusals,
no more and no less. -/
theorem await_honours_deadline (spec : PollSpec) (now : Nat)
    (replies : List (Timed (Except ProbeError Bool))) {o : PollOutcome} {w : Inquiry}
    (hreturns : await spec now replies = (some o, w)) (hclock : w.due ≤ VirtualClock.limit) :
    ∃ earlier last, w.made = earlier ++ [last] ∧ w.made.map Probing.reply <+: replies ∧
      Timely spec now o earlier last ∧ w.clock.elapsed = last.ended ∧
      ∀ replies', List.Forall₂ Softened replies replies' → ∃ w', await spec now replies' =
        (some o, w') ∧ w'.made.map Probing.began = w.made.map Probing.began ∧
          w'.clock = w.clock := by
  have hopened : now ≤ w.due := by
    have hlater := due_le_pollFrom spec now replies.length 0 (start now replies)
    rwa [show pollFrom clockOf spec probe now replies.length 0 (start now replies) = _ from
      hreturns] at hlater
  have hstart : (start now replies).OnTime := (Nat.min_eq_right (hopened.trans hclock)).symm
  obtain ⟨ps, last, hmade, hreplies, hcourse, hlast, hsatisfied, hwaited, hend⟩ :=
    course_pollFrom hreturns le_rfl hstart le_rfl hclock
  obtain ⟨earlier, rfl, htimely⟩ := Course.timely hcourse hlast hsatisfied hwaited
  have hmade : w.made = earlier ++ [last] := hmade
  refine ⟨earlier, last, hmade, ⟨w.replies, ?_⟩, htimely, hend, ?_⟩
  · rw [hmade]
    exact hreplies.symm
  · intro replies' hsoft
    have halike : Alike (start now replies) (start now replies') := ⟨rfl, rfl, hsoft, rfl⟩
    obtain ⟨houtcome, hworld⟩ := alike_pollFrom halike spec now replies.length 0
    rw [show pollFrom clockOf spec probe now replies.length 0 (start now replies) = _ from
      hreturns] at houtcome hworld
    have hawait : await spec now replies' =
        pollFrom clockOf spec probe now replies.length 0 (start now replies') := by
      rw [await, ← hsoft.length_eq]
      rfl
    rw [hawait]
    exact ⟨(pollFrom ..).2, Prod.ext houtcome rfl, hworld.made, hworld.clock⟩

/-- The second probe is answered three units before the deadline and the interval is four, so the
third begins on the deadline. It is answered late, and holds. -/
theorem late_answer_honours_deadline :
    ∃ w earlier last, await ⟨4, 10⟩ 100 [⟨3, .error (.status 503)⟩, ⟨0, .ok false⟩, ⟨9, .ok true⟩] =
        (some (.satisfied 3 19), w) ∧ w.made = earlier ++ [last] ∧
      Timely ⟨4, 10⟩ 100 (.satisfied 3 19) earlier last ∧ last.began = 110 := by
  obtain ⟨w, hreturns, hclock, hbegan⟩ : ∃ w, await ⟨4, 10⟩ 100
      [⟨3, .error (.status 503)⟩, ⟨0, .ok false⟩, ⟨9, .ok true⟩] = (some (.satisfied 3 19), w) ∧
        w.due ≤ VirtualClock.limit ∧ w.made.map Probing.began = [100, 107, 110] :=
    ⟨_, rfl, by decide, rfl⟩
  obtain ⟨earlier, last, hmade, -, htimely, -⟩ := await_honours_deadline _ _ _ hreturns hclock
  rw [hmade] at hbegan
  exact ⟨w, earlier, last, hreturns, hmade, htimely, by simpa using congrArg List.getLast? hbegan⟩

/-- A probe that takes all the time there is ends on the deadline. So no more than the timeout is
waited although the probe was not answered at once, and none begins on the deadline. -/
theorem timeout_waited_by_slow_probe :
    ∃ w, await ⟨1, 1⟩ 0 [⟨1, .ok false⟩] = (some (.timedOut 1 1), w) ∧
      w.made = [⟨0, ⟨1, .ok false⟩⟩] ∧ w.due ≤ VirtualClock.limit :=
  ⟨_, rfl, rfl, by decide⟩

end Inquiry

end FaultSweep
