import Chip8.Proofs.SharedRun

/-!
# Runs that are split

A run that is left running can be taken up again. If time passes on the host only while it sleeps,
then the two runs together are one: the same frames, the same machine, and the same runner, down to
the fraction of an instruction that it carries (`run_split`).

What has to survive the break lies in three places. The carried fraction and the memory of the
latest frame are the runner's, the pending ticks and the latest reading are the machine's. The start
of the next frame is kept by neither and read anew; here it matters that the reading is the one
before the break (`Run.lastReading_advanceOn`).
-/

set_option autoImplicit false

namespace Chip8

/-! ## Hosts on which only sleeping takes time -/

namespace Host

variable {σ : Type} [Host (StateM σ)]

/-- What the clock of a host shows. -/
def reading (host : σ) : Nat := ((now : StateM σ Nat).run host).1

/-- What can become of a host. -/
inductive Later (host : σ) : σ → Prop where
  | refl : Later host host
  | now {h : σ} : Later host h → Later host ((now : StateM σ Nat).run h).2
  | sleep {h : σ} (nanos : Nat) : Later host h → Later host ((sleep nanos : StateM σ Unit).run h).2
  | randomByte {h : σ} : Later host h → Later host ((randomByte : StateM σ UInt8).run h).2

/-- From now on time passes on a host only while it sleeps: readings of the clock do not change the
host, and random bytes do not change the clock. How long it sleeps is left open. -/
structure OnlySleepsTakeTime (host : σ) : Prop where
  now {h : σ} : Later host h → ((now : StateM σ Nat).run h).2 = h
  randomByte {h : σ} :
    Later host h → reading ((randomByte : StateM σ UInt8).run h).2 = reading h

/-- However many steps are made, the clock shows the same. -/
theorem OnlySleepsTakeTime.reading_stepInputs {host : σ} (hhost : OnlySleepsTakeTime host)
    (keys : HeldKeys) (frozen : Bool) (n : Nat) {h : σ} (hlater : Later host h) :
    Later host ((stepInputs keys frozen n : StateM σ _).run h).2 ∧
      reading ((stepInputs keys frozen n : StateM σ _).run h).2 = reading h := by
  induction n generalizing h with
  | zero => exact ⟨hlater, rfl⟩
  | succ n ih =>
    -- A step reads the clock, takes a byte and leaves the rest to the other steps.
    obtain ⟨hrest, hreading⟩ := ih hlater.now.randomByte
    refine ⟨hrest, hreading.trans ?_⟩
    rw [hhost.randomByte hlater.now, hhost.now hlater]

end Host

/-! ## What a run keeps of the clock -/

theorem Runner.start_of_running {α : Type} {r : Runner α} (h : r.status = .running) :
    r.start = r := by
  rw [start, ← h]

namespace Run

variable {α σ : Type} [PaceNumber α] [Host (StateM σ)]

/-- The run with other numbers for its frames. -/
def renumber (run : Run α) (k : Nat) : Run α := { run with frames := run.frames + k }

theorem frameOn_renumber (run : Run α) (k : Nat) (keys : HeldKeys) (host : σ) :
    (run.renumber k).frameOn keys host =
      ((run.frameOn keys host).1.renumber k, (run.frameOn keys host).2) := by
  rw [frameOn_eq, frameOn_eq, renumber, renumber]
  simp only [Nat.add_right_comm]

/-- The frames that a run has made before make no difference to it. -/
theorem advanceOn_renumber (run : Run α) (k : Nat) (keys : HeldKeys) (n : Nat) (host : σ) :
    (run.renumber k).advanceOn keys n host =
      ((run.advanceOn keys n host).1.renumber k, (run.advanceOn keys n host).2) := by
  induction n generalizing run host with
  | zero => rfl
  | succ n ih =>
    cases hrun : run.runner.isRunning with
    | true =>
      have hrenumbered : (run.renumber k).runner.isRunning = true := hrun
      rw [advanceOn_succ hrenumbered, advanceOn_succ hrun, frameOn_renumber, ih]
    | false =>
      have hrenumbered : (run.renumber k).runner.isRunning = false := hrun
      rw [advanceOn_of_not_running hrenumbered, advanceOn_of_not_running hrun]

variable {host : σ} (hhost : Host.OnlySleepsTakeTime host)

include hhost

/-- The frame that has just been made began with the reading that the clock still shows. -/
theorem lastReading_frameOn (run : Run α) (keys : HeldKeys) {h : σ} (hlater : Host.Later host h) :
    Host.Later host (run.frameOn keys h).2 ∧
      (run.frameOn keys h).1.lastReading = Host.reading (run.frameOn keys h).2 := by
  rw [frameOn_eq]
  have hslept := hlater.sleep frameInterval
  obtain ⟨hfed, hreading⟩ := hhost.reading_stepInputs keys _ _ hslept.now
  refine ⟨hfed, ?_⟩
  rw [hreading, hhost.now hslept]
  rfl

/-- A run knows what the clock shows, if it did so at the start. -/
theorem lastReading_advanceOn (run : Run α) (keys : HeldKeys) (n : Nat) {h : σ}
    (hlater : Host.Later host h) (hstart : run.lastReading = Host.reading h) :
    Host.Later host (run.advanceOn keys n h).2 ∧
      (run.advanceOn keys n h).1.lastReading = Host.reading (run.advanceOn keys n h).2 := by
  induction n generalizing run h with
  | zero => exact ⟨hlater, hstart⟩
  | succ n ih =>
    cases hrun : run.runner.isRunning with
    | true =>
      obtain ⟨hnext, hknown⟩ := lastReading_frameOn hhost run keys hlater
      rw [advanceOn_succ hrun]
      exact ih _ hnext hknown
    | false =>
      rw [advanceOn_of_not_running hrun]
      exact ⟨hlater, hstart⟩

omit [PaceNumber α] in
/-- To begin anew with a runner that is still running changes nothing but the number of the frames
made so far. -/
theorem begin_of_running {run : Run α} {h : σ} (hlater : Host.Later host h)
    (hrunning : run.runner.status = .running) (hknown : run.lastReading = Host.reading h) :
    (begin run.runner run.machine : StateM σ _).run h = ({ run with frames := 0 }, h) := by
  have hbegin : (begin run.runner run.machine : StateM σ _).run h =
      (⟨run.runner.start, run.machine, Host.reading h, 0⟩, ((Host.now : StateM σ Nat).run h).2) :=
    rfl
  rw [hbegin, hhost.now hlater, Runner.start_of_running hrunning, ← hknown]

end Run

/-- Splitting a run changes nothing. Take any runner, machine and keys, and any host on which only
sleeping takes time. If a run of at most `a` frames leaves its runner running, and one of at most
`b` frames follows at once, then they end as a single run of at most `a + b` frames does: with the
same machine, the same runner, the same number of frames altogether, and the host in the same
state. -/
theorem run_split {α σ : Type} [PaceNumber α] [Host (StateM σ)] (r : Runner α) (machine : Machine)
    (keys : HeldKeys) (a b : Nat) {host : σ} (hhost : Host.OnlySleepsTakeTime host) :
    let first := (r.run machine keys a : StateM σ _).run host
    let second := (first.1.runner.run first.1.machine keys b : StateM σ _).run first.2
    let whole := (r.run machine keys (a + b) : StateM σ _).run host
    first.1.runner.status = .running →
      second.1.machine = whole.1.machine ∧ second.1.runner = whole.1.runner ∧
        first.1.frames + second.1.frames = whole.1.frames ∧
        second.1.lastReading = whole.1.lastReading ∧ second.2 = whole.2 := by
  intro first second whole hrunning
  -- Both runs begin at the same reading, which leaves the host as it is.
  let begun : Run α := ⟨r.start, machine, Host.reading host, 0⟩
  have hbegun : ((Host.now : StateM σ Nat).run host).2 = host := hhost.now .refl
  have hfirst : first = begun.advanceOn keys a host := by
    conv_rhs => rw [← hbegun]
    rfl
  have hwhole : whole = first.1.advanceOn keys b first.2 := by
    rw [hfirst, ← Run.advanceOn_add]
    conv_rhs => rw [← hbegun]
    rfl
  obtain ⟨hlater, hknown⟩ := Run.lastReading_advanceOn hhost begun keys a .refl rfl
  rw [← hfirst] at hlater hknown
  have hsecond : second = Run.advanceOn { first.1 with frames := 0 } keys b first.2 := by
    have hbegin : second =
        let again := (Run.begin first.1.runner first.1.machine : StateM σ _).run first.2
        again.1.advanceOn keys b again.2 := rfl
    rw [hbegin, Run.begin_of_running hhost hlater hrunning hknown]
  have hrenumber : whole = (second.1.renumber first.1.frames, second.2) := by
    rw [hsecond, ← Run.advanceOn_renumber, hwhole]
    simp only [Run.renumber, Nat.zero_add]
  rw [hrenumber]
  exact ⟨rfl, rfl, Nat.add_comm _ _, rfl, rfl⟩

namespace Simulated

/-- The source of random bytes has no part in the time. -/
theorem time_withSeed (h : Simulated) (seed : UInt64) :
    ({ h with seed := seed } : Simulated).tick = h.tick ∧
      Host.reading { h with seed := seed } = Host.reading h := ⟨rfl, rfl⟩

/-- A simulated host of which the readings take no time. -/
theorem onlySleepsTakeTime {host : Simulated} (htick : host.tick = 0) :
    Host.OnlySleepsTakeTime host := by
  have hkept : ∀ {h}, Host.Later host h → h.tick = 0 := by
    intro h hlater
    induction hlater with
    | refl => exact htick
    | now _ ih => exact ih
    | sleep nanos _ ih => exact ih
    | @randomByte h _ ih => exact (h.time_withSeed h.nextSeed).1.trans ih
  constructor
  · intro h hlater
    show h.pass h.tick = h
    rw [hkept hlater]
    rfl
  · intro h _
    exact (h.time_withSeed h.nextSeed).2

end Simulated

/-- A host whose first sleep is three milliseconds late, and the third one a little. -/
def lateHost : Simulated := (Simulated.start 7).withLateness [3000000, 0, 5]

/-- A runner of a hundred instructions a second, which is between one and two a frame. -/
def slowRunner : Runner Rat := .ofSettings { Settings.default with speed := 100 }

/-- A frame of a machine that counts without end. -/
def countingFirst : Run Rat × Simulated :=
  (slowRunner.run counting Keypad.none 1 : StateM Simulated _).run lateHost

/-- Two frames more. -/
def countingSecond : Run Rat × Simulated :=
  (countingFirst.1.runner.run countingFirst.1.machine Keypad.none 2 : StateM Simulated _).run
    countingFirst.2

/-- Three frames at once. -/
def countingWhole : Run Rat × Simulated :=
  (slowRunner.run counting Keypad.none (1 + 2) : StateM Simulated _).run lateHost

theorem counting_run_split :
    Host.OnlySleepsTakeTime lateHost ∧ countingFirst.1.runner.status = .running ∧
      countingFirst.1.runner.pacer.carry = 9667 / 10000 ∧ countingSecond.1.frames = 2 ∧
      countingSecond.1.machine = countingWhole.1.machine ∧
      countingSecond.1.runner = countingWhole.1.runner ∧
      countingFirst.1.frames + countingSecond.1.frames = countingWhole.1.frames := by
  have hhost : Host.OnlySleepsTakeTime lateHost := Simulated.onlySleepsTakeTime rfl
  have hrunning : countingFirst.1.runner.status = .running := by decide +kernel
  have hcarry : countingFirst.1.runner.pacer.carry = 9667 / 10000 := by decide +kernel
  have hsecond : countingSecond.1.frames = 2 := by decide +kernel
  refine ⟨hhost, hrunning, hcarry, hsecond, ?_⟩
  unfold countingFirst at hrunning
  obtain ⟨hmachine, hrunner, hframes, -⟩ :=
    run_split slowRunner counting Keypad.none 1 2 hhost hrunning
  unfold countingSecond countingWhole countingFirst
  exact ⟨hmachine, hrunner, hframes⟩

end Chip8
