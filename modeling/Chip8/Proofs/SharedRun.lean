import Chip8.Proofs.Frames
import Chip8.Runner.Shared
import Mathlib.Order.Nat

/-!
# Runs under outside control, frame by frame

A run under outside control makes the frames of a run on the caller's own time, each with the keys
that are present after the sleep before it. Others decide only how many: the run ends with the first
frame after which there is a reason to (`EndsAfter`), and makes all frames up to it and no others
(`runShared_eq_runFrames`).

A reason is an event of one sleep, while the run looks at what all events so far have left behind.
The two agree because no event takes back what an earlier one did (`Controls.flag_after`).
-/

set_option autoImplicit false

namespace Chip8

namespace Controls

/-- The controls after a number of sleeps. -/
def after (c : Controls) (schedule : Nat → List ControlEvent) : Nat → Controls
  | 0 => c
  | k + 1 => (schedule (k + 1)).foldl apply (c.after schedule k)

/-- The keys present after each sleep. -/
def keysAfter (c : Controls) (schedule : Nat → List ControlEvent) (k : Nat) : HeldKeys :=
  (c.after schedule k).keys

section

variable {flag : Controls → Bool} {a b : ControlEvent}
  (hflag : ∀ c e, flag (c.apply e) = true ↔ flag c = true ∨ e = a ∨ e = b)

include hflag

theorem flag_foldl (events : List ControlEvent) (c : Controls) :
    flag (events.foldl apply c) = true ↔ flag c = true ∨ a ∈ events ∨ b ∈ events := by
  induction events generalizing c with
  | nil => simp
  | cons e events ih =>
    rw [List.foldl_cons, ih, hflag, List.mem_cons, List.mem_cons, or_assoc, or_or_or_comm,
      @eq_comm _ a e, @eq_comm _ b e]

/-- A flag that two kinds of events raise and none lowers is up if it was at the start, or such an
event fell into one of the sleeps. -/
theorem flag_after (c : Controls) (schedule : Nat → List ControlEvent) (k : Nat) :
    flag (c.after schedule k) = true ↔
      flag c = true ∨ ∃ j < k, a ∈ schedule (j + 1) ∨ b ∈ schedule (j + 1) := by
  induction k with
  | zero => simp [after]
  | succ k ih => rw [after, flag_foldl hflag, ih, or_assoc, Nat.exists_lt_succ_right]

end

theorem endsBeforeSleep_apply (c : Controls) (e : ControlEvent) :
    (c.apply e).endsBeforeSleep = true ↔
      c.endsBeforeSleep = true ∨ e = .stop ∨ e = .poisonStop := by
  cases e <;> simp [apply, endsBeforeSleep]

theorem endsAfterSleep_apply (c : Controls) (e : ControlEvent) :
    (c.apply e).endsAfterSleep = true ↔
      c.endsAfterSleep = true ∨ e = .poisonKeys ∨ e = .poisonMachine := by
  cases e <;> simp [apply, endsAfterSleep]

/-- The keys are always the same and no lock is ever poisoned. -/
structure Steady (c : Controls) (schedule : Nat → List ControlEvent) : Prop where
  stopPoisoned : c.stopPoisoned = false
  keysPoisoned : c.keysPoisoned = false
  machinePoisoned : c.machinePoisoned = false
  event : ∀ n, ∀ e ∈ schedule (n + 1), e ≠ .poisonStop ∧ e ≠ .poisonKeys ∧ e ≠ .poisonMachine
  keys : ∀ n, c.keysAfter schedule n = c.keys

/-- Whether the stop signal is given in a sleep, or before the start if the number is 0. -/
def StopsIn (c : Controls) (schedule : Nat → List ControlEvent) : Nat → Prop
  | 0 => c.stopped = true
  | k + 1 => .stop ∈ schedule (k + 1)

/-- The reasons for a run to end after a number of frames: what others do, and what the runner is
doing after each frame. -/
inductive EndsAfter (c : Controls) (schedule : Nat → List ControlEvent)
    (status : Nat → Runner.Status) : Nat → Prop
  /-- The last of the frames halts the runner. -/
  | halted {n : Nat} : 0 < n → status n ≠ .running → EndsAfter c schedule status n
  /-- The stop signal is given, or its lock is poisoned, before the start. -/
  | stoppedAtStart : c.stopped = true ∨ c.stopPoisoned = true → EndsAfter c schedule status 0
  /-- The stop signal is given, or its lock is poisoned, in the sleep before the last frame. -/
  | stopped {n : Nat} : 0 < n → .stop ∈ schedule n ∨ .poisonStop ∈ schedule n →
      EndsAfter c schedule status n
  /-- The lock of the keys or of the machine is poisoned before the start. -/
  | poisonedAtStart : c.keysPoisoned = true ∨ c.machinePoisoned = true →
      EndsAfter c schedule status 0
  /-- The lock of the keys or of the machine is poisoned in the sleep after the last frame. -/
  | poisoned {n : Nat} : .poisonKeys ∈ schedule (n + 1) ∨ .poisonMachine ∈ schedule (n + 1) →
      EndsAfter c schedule status n

namespace EndsAfter

variable {c : Controls} {schedule : Nat → List ControlEvent} {status : Nat → Runner.Status}

theorem of_stopsIn {k : Nat} (h : c.StopsIn schedule k) : EndsAfter c schedule status k := by
  cases k with
  | zero => exact .stoppedAtStart (.inl h)
  | succ k => exact .stopped (Nat.succ_pos k) (.inl h)

/-- While nothing is poisoned, a run ends because the stop signal is given or its runner halts. -/
theorem halted_or_stopsIn {n : Nat} (h : EndsAfter c schedule status n)
    (hsteady : c.Steady schedule) : status n ≠ .running ∨ c.StopsIn schedule n := by
  cases h with
  | halted _ hstatus => exact .inl hstatus
  | stoppedAtStart hc =>
    rw [hsteady.stopPoisoned] at hc
    exact .inr (hc.resolve_right Bool.false_ne_true)
  | stopped hn hevent =>
    obtain ⟨k, rfl⟩ := Nat.exists_eq_add_of_lt hn
    rw [Nat.zero_add] at hevent ⊢
    exact .inr (hevent.resolve_right fun h => (hsteady.event k _ h).1 rfl)
  | poisonedAtStart hc =>
    rw [hsteady.keysPoisoned, hsteady.machinePoisoned] at hc
    simp at hc
  | poisoned hevent =>
    rcases hevent with h | h
    · exact absurd rfl (hsteady.event n _ h).2.1
    · exact absurd rfl (hsteady.event n _ h).2.2

end EndsAfter

end Controls

/-! ## Frames with keys of their own -/

namespace Run

variable {α : Type} [PaceNumber α]

/-- Makes a number of frames, whatever the runner does. Each has its own keys; the first has the
number 1. -/
def makeFrames {m : Type → Type} [Monad m] [Host m] (keysAt : Nat → HeldKeys) :
    Nat → Run α → m (Run α)
  | 0, run => return run
  | n + 1, run => do
      let run ← makeFrames keysAt n run
      run.frame (keysAt (n + 1))

variable {σ : Type} [Host (StateM σ)]

/-- A run after `n` more frames, and the host then. -/
def framesOn (run : Run α) (keysAt : Nat → HeldKeys) (n : Nat) (host : σ) : Run α × σ :=
  (run.makeFrames keysAt n : StateM σ _).run host

theorem framesOn_succ (run : Run α) (keysAt : Nat → HeldKeys) (n : Nat) (host : σ) :
    run.framesOn keysAt (n + 1) host =
      (run.framesOn keysAt n host).1.frameOn (keysAt (n + 1)) (run.framesOn keysAt n host).2 := rfl

/-- While the runner runs, a run on the caller's own time makes all its frames. -/
theorem advanceOn_eq_framesOn {run : Run α} {keys : HeldKeys} {n : Nat} {host : σ}
    (hrun : ∀ k < n, (run.framesOn (fun _ => keys) k host).1.runner.isRunning = true) :
    run.advanceOn keys n host = run.framesOn (fun _ => keys) n host := by
  induction n with
  | zero => rfl
  | succ n ih =>
    rw [advanceOn_add, ih fun k hk => hrun k (Nat.lt_succ_of_lt hk),
      advanceOn_succ (hrun n (Nat.lt_succ_self n)), advanceOn_zero, framesOn_succ]

end Run

/-- Starts a runner and makes a number of frames, each with its own keys. -/
def Runner.runFrames {α : Type} [PaceNumber α] {m : Type → Type} [Monad m] [Host m] (r : Runner α)
    (machine : Machine) (keysAt : Nat → HeldKeys) (n : Nat) : m (Run α) := do
  let run ← Run.begin r machine
  run.makeFrames keysAt n

/-! ## The run step by step -/

namespace SharedRun

variable {α σ : Type} [PaceNumber α] [Host (StateM σ)] {schedule : Nat → List ControlEvent}

/-- A run after at most `limit` more sleeps, and the host then. -/
def advanceOn (schedule : Nat → List ControlEvent) (s : SharedRun α) (limit : Nat) (host : σ) :
    SharedRun α × σ :=
  (s.advance schedule limit : StateM σ _).run host

/-- The controls after the next sleep. -/
def nextControls (schedule : Nat → List ControlEvent) (s : SharedRun α) : Controls :=
  (schedule (s.sleeps + 1)).foldl Controls.apply s.controls

/-- Whether a run makes no further frame. -/
def Over (schedule : Nat → List ControlEvent) (s : SharedRun α) : Prop :=
  (s.ended || s.controls.endsBeforeSleep) = true ∨ (s.nextControls schedule).endsAfterSleep = true

/-- A run that is over ends at once or in its next sleep. -/
theorem advanceOn_of_over {s : SharedRun α} (h : s.Over schedule) (limit : Nat) (host : σ) :
    (s.advanceOn schedule (limit + 1) host).1.ended = true ∧
      (s.advanceOn schedule (limit + 1) host).1.run = s.run := by
  rw [advanceOn, advance]
  by_cases hbefore : (s.ended || s.controls.endsBeforeSleep) = true
  · rw [if_pos hbefore]
    exact ⟨rfl, rfl⟩
  · have hafter : (s.nextControls schedule).endsAfterSleep = true := h.resolve_left hbefore
    rw [nextControls] at hafter
    simp only [if_neg hbefore, if_pos hafter]
    exact ⟨rfl, rfl⟩

/-- A run that is not over sleeps and makes a frame. -/
theorem advanceOn_succ {s : SharedRun α} (h : ¬ s.Over schedule) (limit : Nat) (host : σ) :
    s.advanceOn schedule (limit + 1) host =
      let next := s.run.frameOn (s.nextControls schedule).keys host
      advanceOn schedule
        ⟨next.1, s.nextControls schedule, s.sleeps + 1, !next.1.runner.isRunning⟩ limit next.2 := by
  obtain ⟨hbefore, hafter⟩ := not_or.1 h
  rw [nextControls] at hafter
  rw [advanceOn, advance]
  simp only [if_neg hbefore, if_neg hafter]
  rfl

/-- What a run has become that made `k` frames, with the keys present after each sleep. -/
def afterFrames (run : Run α) (c : Controls) (schedule : Nat → List ControlEvent) (k : Nat)
    (host : σ) : SharedRun α × σ :=
  let made := run.framesOn (c.keysAfter schedule) k host
  (⟨made.1, c.after schedule k, k, !made.1.runner.isRunning⟩, made.2)

/-- A run makes its frames one after the other until it is over. -/
theorem advanceOn_eq_afterFrames {run : Run α} (hrun : run.runner.isRunning = true) {c : Controls}
    {host : σ} {k : Nat}
    (hover : ∀ j < k, ¬ (afterFrames run c schedule j host).1.Over schedule) (limit : Nat) :
    advanceOn schedule ⟨run, c, 0, false⟩ (k + limit) host =
      advanceOn schedule (afterFrames run c schedule k host).1 limit
        (afterFrames run c schedule k host).2 := by
  induction k generalizing limit with
  | zero =>
    have hstart : afterFrames run c schedule 0 host = (⟨run, c, 0, !run.runner.isRunning⟩, host) :=
      rfl
    rw [hstart, hrun, Nat.zero_add]
    rfl
  | succ k ih =>
    have hnext : k + 1 + limit = k + (limit + 1) := by omega
    rw [hnext, ih (fun j hj => hover j (Nat.lt_succ_of_lt hj)),
      advanceOn_succ (hover k (Nat.lt_succ_self k))]
    rfl

/-! ## Where the run ends -/

variable {run : Run α} {c : Controls} {host : σ}

/-- What the runner is doing after each frame. -/
def statusAfter (run : Run α) (c : Controls) (schedule : Nat → List ControlEvent) (host : σ)
    (n : Nat) : Runner.Status :=
  (run.framesOn (c.keysAfter schedule) n host).1.runner.status

theorem over_afterFrames_iff (n : Nat) :
    (afterFrames run c schedule n host).1.Over schedule ↔
      statusAfter run c schedule host n ≠ .running ∨
        (c.after schedule n).endsBeforeSleep = true ∨
          (c.after schedule (n + 1)).endsAfterSleep = true := by
  have hended : (afterFrames run c schedule n host).1.ended = true ↔
      statusAfter run c schedule host n ≠ .running := by
    simp [afterFrames, statusAfter, Runner.isRunning]
  rw [Over, Bool.or_eq_true, hended, or_assoc]
  rfl

/-- Where there is a reason to end, a run is over. -/
theorem over_of_endsAfter {n : Nat} (h : c.EndsAfter schedule (statusAfter run c schedule host) n) :
    (afterFrames run c schedule n host).1.Over schedule := by
  rw [over_afterFrames_iff, Controls.flag_after Controls.endsBeforeSleep_apply,
    Controls.flag_after Controls.endsAfterSleep_apply]
  cases h with
  | halted _ hstatus => exact .inl hstatus
  | stoppedAtStart hc => exact .inr (.inl (.inl (by simpa [Controls.endsBeforeSleep] using hc)))
  | stopped hn hevent =>
    refine .inr (.inl (.inr ⟨n - 1, by omega, ?_⟩))
    rwa [Nat.sub_add_cancel hn]
  | poisonedAtStart hc => exact .inr (.inr (.inl (by simpa [Controls.endsAfterSleep] using hc)))
  | poisoned hevent => exact .inr (.inr (.inr ⟨n, Nat.lt_succ_self n, hevent⟩))

/-- Where a run is over, there is a reason to end, or there was one before. -/
theorem exists_endsAfter_of_over (hrun : run.runner.isRunning = true) {n : Nat}
    (h : (afterFrames run c schedule n host).1.Over schedule) :
    ∃ j ≤ n, c.EndsAfter schedule (statusAfter run c schedule host) j := by
  rw [over_afterFrames_iff, Controls.flag_after Controls.endsBeforeSleep_apply,
    Controls.flag_after Controls.endsAfterSleep_apply] at h
  rcases h with hstatus | (hc | ⟨j, hj, hevent⟩) | (hc | ⟨j, hj, hevent⟩)
  · have hpos : 0 < n := by
      refine Nat.pos_of_ne_zero fun hzero => hstatus ?_
      rw [hzero]
      exact of_decide_eq_true hrun
    exact ⟨n, Nat.le_refl n, .halted hpos hstatus⟩
  · exact ⟨0, Nat.zero_le n, .stoppedAtStart (by simpa [Controls.endsBeforeSleep] using hc)⟩
  · exact ⟨j + 1, hj, .stopped (Nat.succ_pos j) hevent⟩
  · exact ⟨0, Nat.zero_le n, .poisonedAtStart (by simpa [Controls.endsAfterSleep] using hc)⟩
  · exact ⟨j, Nat.le_of_lt_succ hj, .poisoned hevent⟩

/-- A run makes the frames up to the first reason to end, and ends. -/
theorem advanceOn_of_isLeast (hrun : run.runner.isRunning = true) {n : Nat}
    (hleast : IsLeast {k | c.EndsAfter schedule (statusAfter run c schedule host) k} n)
    {limit : Nat} (hlimit : n < limit) :
    (advanceOn schedule ⟨run, c, 0, false⟩ limit host).1.ended = true ∧
      (advanceOn schedule ⟨run, c, 0, false⟩ limit host).1.run =
        (run.framesOn (c.keysAfter schedule) n host).1 := by
  have hover : ∀ k < n, ¬ (afterFrames run c schedule k host).1.Over schedule := by
    intro k hk h
    obtain ⟨j, hj, hends⟩ := exists_endsAfter_of_over hrun h
    exact absurd (hleast.2 hends) (by omega)
  obtain ⟨further, rfl⟩ := Nat.exists_eq_add_of_lt hlimit
  rw [Nat.add_assoc, advanceOn_eq_afterFrames hrun hover]
  exact advanceOn_of_over (over_of_endsAfter hleast.1) further _

/-- Without a reason to end a run goes on for ever. -/
theorem advanceOn_of_not_endsAfter (hrun : run.runner.isRunning = true)
    (hnever : ∀ n, ¬ c.EndsAfter schedule (statusAfter run c schedule host) n) (limit : Nat) :
    (advanceOn schedule ⟨run, c, 0, false⟩ limit host).1.ended = false ∧
      (advanceOn schedule ⟨run, c, 0, false⟩ limit host).1.run =
        (run.framesOn (c.keysAfter schedule) limit host).1 := by
  have hover : ∀ k, ¬ (afterFrames run c schedule k host).1.Over schedule := by
    intro k h
    obtain ⟨j, -, hends⟩ := exists_endsAfter_of_over hrun h
    exact hnever j hends
  have hlast := (not_or.1 (hover limit)).1
  rw [← Nat.add_zero limit, advanceOn_eq_afterFrames hrun fun j _ => hover j]
  exact ⟨(Bool.not_eq_true _).mp hlast, rfl⟩

/-- Before the first reason to end no frame halts the runner, since that would be one. -/
theorem isRunning_framesOn_of_isLeast (hrun : run.runner.isRunning = true) {n : Nat}
    (hleast : IsLeast {k | c.EndsAfter schedule (statusAfter run c schedule host) k} n) {k : Nat}
    (hk : k < n) : (run.framesOn (c.keysAfter schedule) k host).1.runner.isRunning = true := by
  rcases Nat.eq_zero_or_pos k with rfl | hpos
  · exact hrun
  · refine decide_eq_true ?_
    by_contra hhalted
    exact absurd (hleast.2 (.halted hpos hhalted)) (Nat.not_le_of_lt hk)

/-- With the same keys throughout and nothing poisoned, a run makes the frames of a run on the
caller's own time, up to the sleep in which the stop signal is given. -/
theorem advanceOn_of_stopsIn (hrun : run.runner.isRunning = true) (hsteady : c.Steady schedule)
    {k : Nat} (hstop : IsLeast {j | c.StopsIn schedule j} k) {limit : Nat} (hlimit : k < limit) :
    (advanceOn schedule ⟨run, c, 0, false⟩ limit host).1.ended = true ∧
      (advanceOn schedule ⟨run, c, 0, false⟩ limit host).1.run =
        (run.advanceOn c.keys k host).1 := by
  classical
  have hreason : c.EndsAfter schedule (statusAfter run c schedule host) k := .of_stopsIn hstop.1
  obtain ⟨n, hleast⟩ :
      ∃ n, IsLeast {j | c.EndsAfter schedule (statusAfter run c schedule host) j} n :=
    ⟨_, Set.Nonempty.isLeast_natFind ⟨k, hreason⟩⟩
  have hle : n ≤ k := hleast.2 hreason
  obtain ⟨hended, hmade⟩ := advanceOn_of_isLeast hrun hleast (Nat.lt_of_le_of_lt hle hlimit)
  refine ⟨hended, hmade.trans ?_⟩
  have hkeys : c.keysAfter schedule = fun _ => c.keys := funext hsteady.keys
  have hrunning : ∀ j < n, (run.framesOn (fun _ => c.keys) j host).1.runner.isRunning = true := by
    rw [← hkeys]
    exact fun j => isRunning_framesOn_of_isLeast hrun hleast
  obtain ⟨further, rfl⟩ := Nat.exists_eq_add_of_le hle
  rw [Run.advanceOn_add, Run.advanceOn_eq_framesOn hrunning, ← hkeys]
  rcases hleast.1.halted_or_stopsIn hsteady with hhalted | hearly
  · rw [Run.advanceOn_of_not_running (decide_eq_false hhalted)]
  · have hfurther : n + further ≤ n := hstop.2 hearly
    obtain rfl : further = 0 := by omega
    rfl

end SharedRun

/-- A run under outside control is a run on the caller's own time, cut off. Whatever others do and
when, and on any host: the run ends after the least number of frames for which there is a reason,
and has made exactly these frames, each with the keys present after the sleep before it. It goes on
for ever if there is no reason. If the keys are always the same, no lock is poisoned and the stop
signal is first given in the sleep with the number `k`, then the run ends as one of at most `k`
frames on the caller's own time. -/
theorem runShared_eq_runFrames {α σ : Type} [PaceNumber α] [Host (StateM σ)] (r : Runner α)
    (machine : Machine) (c : Controls) (schedule : Nat → List ControlEvent) (host : σ) :
    let shared := fun limit => ((r.runShared machine c schedule limit : StateM σ _).run host).1
    let made := fun n =>
      ((r.runFrames machine (c.keysAfter schedule) n : StateM σ _).run host).1
    let Ends := c.EndsAfter schedule fun n => (made n).runner.status
    (∀ n, IsLeast {k | Ends k} n → ∀ limit, n < limit →
        (shared limit).ended = true ∧ (shared limit).run = made n) ∧
      ((∀ n, ¬ Ends n) →
        ∀ limit, (shared limit).ended = false ∧ (shared limit).run = made limit) ∧
      (c.Steady schedule → ∀ k, IsLeast {j | c.StopsIn schedule j} k → ∀ limit, k < limit →
        (shared limit).ended = true ∧
          (shared limit).run = ((r.run machine c.keys k : StateM σ _).run host).1) := by
  intro shared made Ends
  -- All these runs begin with the same reading of the clock.
  let now := (Host.now : StateM σ Nat).run host
  let begun : Run α := ⟨r.start, machine, now.1, 0⟩
  have hrun : begun.runner.isRunning = true := rfl
  refine ⟨fun n hleast limit hlimit => ?_, fun hnever limit => ?_,
    fun hsteady k hstop limit hlimit => ?_⟩
  · exact SharedRun.advanceOn_of_isLeast hrun hleast hlimit
  · exact SharedRun.advanceOn_of_not_endsAfter hrun hnever limit
  · exact SharedRun.advanceOn_of_stopsIn hrun hsteady hstop hlimit

/-- A machine that counts in a register without end. -/
def counting : Machine := (Machine.new.loadProgram [0x70, 0x01, 0x12, 0x00]).2

/-- The stop signal is given in the second sleep. -/
def stopInSecondSleep (k : Nat) : List ControlEvent := if k = 2 then [.stop] else []

theorem steady_stopInSecondSleep : (Controls.start Keypad.none false).Steady stopInSecondSleep := by
  refine ⟨rfl, rfl, rfl, fun n e he => ?_, fun n => ?_⟩
  · rw [stopInSecondSleep] at he
    split at he
    · rw [List.mem_singleton.1 he]
      simp
    · exact absurd he List.not_mem_nil
  · induction n with
    | zero => rfl
    | succ n ih =>
      rw [Controls.keysAfter, Controls.after, stopInSecondSleep]
      split <;> exact ih

/-- The run of that machine on a host whose readings each take a nanosecond. -/
def countingShared (limit : Nat) : SharedRun Rat :=
  ((Runner.runShared (.ofSettings .default) counting (.start Keypad.none false) stopInSecondSleep
    limit : StateM Tape _).run ⟨0, fun _ => 1, fun _ => 0⟩).1

theorem countingShared_eq_run :
    (Controls.start Keypad.none false).Steady stopInSecondSleep ∧
      IsLeast {k | (Controls.start Keypad.none false).StopsIn stopInSecondSleep k} 2 ∧
      (countingShared 5).ended = true ∧ (countingShared 5).run.frames = 2 ∧
      (countingShared 5).run =
        ((Runner.run (.ofSettings .default) counting Keypad.none 2 : StateM Tape _).run
          ⟨0, fun _ => 1, fun _ => 0⟩).1 := by
  have hleast : IsLeast {k | (Controls.start Keypad.none false).StopsIn stopInSecondSleep k} 2 := by
    refine ⟨List.mem_singleton_self _, fun k hk => ?_⟩
    match k, hk with
    | k + 2, _ => exact Nat.le_add_left 2 k
  have hframes : (countingShared 5).run.frames = 2 := by decide +kernel
  unfold countingShared at hframes ⊢
  obtain ⟨hended, hrun⟩ := (runShared_eq_runFrames (.ofSettings .default : Runner Rat) counting
    (.start Keypad.none false) stopInSecondSleep (⟨0, fun _ => 1, fun _ => 0⟩ : Tape)).2.2
      steady_stopInSecondSleep 2 hleast 5 (by decide)
  exact ⟨steady_stopInSecondSleep, hleast, hended, hframes, hrun⟩

end Chip8
