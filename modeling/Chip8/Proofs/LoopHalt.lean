import Chip8.Proofs.Frames
import Chip8.Proofs.Reachable

/-!
# Halting on a detected loop

A runner that detects loops halts a machine that jumps to its own address; a runner that does not
goes on. The two runs are the same frame by frame until a loop is detected, since the runners differ
in nothing else and the time of a frame is paced before a loop is noticed. From then on the machine
of the plain run changes nothing but its timers. So the halt does not change the outcome
(`rests_run_of_loopDetected`).
-/

set_option autoImplicit false

namespace Chip8

variable {α : Type} [PaceNumber α]

namespace Runner

/-- The runner without the detection of loops. -/
def plain (r : Runner α) : Runner α := { r with detectLoop := false }

/-- While there is no loop, its detection makes no difference. -/
theorem frame_plain (r : Runner α) (span : Nat) :
    r.plain.frame span false = ((r.frame span false).1, (r.frame span false).2.plain) := by
  unfold frame
  by_cases hrun : r.isRunning = true
  · have hplain : r.plain.isRunning = true := hrun
    rw [if_pos hrun, if_pos hplain]
    simp [plain]
  · have hplain : ¬ r.plain.isRunning = true := hrun
    rw [if_neg hrun, if_neg hplain]
    rfl

/-- A loop that is detected halts the runner, in a frame without an instruction. -/
theorem frame_of_loopDetected {r : Runner α} (hrun : r.isRunning = true)
    (hdetect : r.detectLoop = true) (span : Nat) :
    (r.frame span true).1 = .idle ∧ (r.frame span true).2.isRunning = false := by
  rw [frame, if_pos hrun, hdetect]
  exact ⟨rfl, rfl⟩

/-- A runner that lets its machine run keeps running and does not change its mind about loops. -/
theorem frame_keeps {r : Runner α} {looping : Bool} (h : r.Lets looping) (span : Nat) :
    (r.frame span looping).2.isRunning = true ∧
      (r.frame span looping).2.detectLoop = r.detectLoop := by
  rw [frame_of_lets h]
  exact ⟨h.1, rfl⟩

end Runner

namespace Run

/-- The run with a runner that does not detect loops. -/
def plain (run : Run α) : Run α := { run with runner := run.runner.plain }

variable {σ : Type} [Host (StateM σ)]

theorem frameOn_plain {run : Run α} (hloop : run.machine.isLooping = false) (keys : HeldKeys)
    (host : σ) :
    run.plain.frameOn keys host =
      ((run.frameOn keys host).1.plain, (run.frameOn keys host).2) := by
  have hframe : (run.plain.frame keys : StateM σ _) = plain <$> run.frame keys := by
    simp only [frame, frameAt, Runner.update, plain, hloop, run.runner.frame_plain,
      map_eq_pure_bind, bind_assoc, pure_bind]
  rw [frameOn, hframe]
  rfl

/-- A plain run makes all its frames. -/
theorem frames_advanceOn_of_plain (run : Run α) (hrun : run.runner.isRunning = true)
    (hdetect : run.runner.detectLoop = false) (keys : HeldKeys) (n : Nat) (host : σ) :
    (run.advanceOn keys n host).1.frames = run.frames + n := by
  induction n generalizing run host with
  | zero => rfl
  | succ n ih =>
    obtain ⟨now, is, -, hframe⟩ := run.exists_frameOn keys host
    have hlets : run.runner.Lets run.machine.isLooping := ⟨hrun, by simp [hdetect]⟩
    obtain ⟨hrun', hdetect'⟩ := Runner.frame_keeps hlets (now - run.lastReading)
    have hnext := ih (run.frameOn keys host).1
    rw [advanceOn_succ hrun]
    rw [hframe] at hnext ⊢
    rw [hnext hrun' (hdetect'.trans hdetect) (run.frameOn keys host).2]
    exact Nat.add_right_comm _ 1 n

/-- The frame in which a loop is detected leaves the machine alone and ends the run. -/
theorem frameOn_of_loopDetected {run : Run α} (hrun : run.runner.isRunning = true)
    (hdetect : run.runner.detectLoop = true) (hloop : run.machine.isLooping = true)
    (keys : HeldKeys) (host : σ) :
    (run.frameOn keys host).1.runner.isRunning = false ∧
      (run.frameOn keys host).1.machine = run.machine := by
  obtain ⟨now, is, hlength, hframe⟩ := run.exists_frameOn keys host
  obtain ⟨hidle, hhalted⟩ :=
    Runner.frame_of_loopDetected hrun hdetect (now - run.lastReading)
  rw [hloop] at hlength hframe
  rw [hidle] at hlength
  obtain rfl := List.eq_nil_of_length_eq_zero hlength
  rw [hframe]
  exact ⟨hhalted, rfl⟩

/-- The runs with and without detection from the same start. -/
theorem rests_advanceOn_plain (run : Run α) (hrun : run.runner.isRunning = true)
    (hdetect : run.runner.detectLoop = true) (hreachable : run.machine.Reachable) (keys : HeldKeys)
    (limit : Nat) (host : σ)
    (hhalted : (run.advanceOn keys limit host).1.runner.isRunning = false) (n : Nat)
    (hn : (run.advanceOn keys limit host).1.frames ≤ run.frames + n) :
    (run.plain.advanceOn keys n host).1.frames = run.frames + n ∧
      (run.advanceOn keys limit host).1.machine.Rests
        (run.plain.advanceOn keys n host).1.machine := by
  induction limit generalizing run host n with
  | zero => exact absurd hrun (by simpa using hhalted)
  | succ limit ih =>
    have hplain : run.plain.runner.isRunning = true := hrun
    rw [advanceOn_succ hrun] at hhalted hn ⊢
    cases hloop : run.machine.isLooping with
    | true =>
      -- The run ends here. The plain one goes on with a machine that is settled.
      obtain ⟨hstopped, hmachine⟩ := frameOn_of_loopDetected hrun hdetect hloop keys host
      obtain ⟨is, hsteps⟩ := run.plain.exists_run_advanceOn keys n host
      refine ⟨frames_advanceOn_of_plain run.plain hplain rfl keys n host, ?_⟩
      rw [advanceOn_of_not_running hstopped, hmachine, hsteps]
      exact Machine.rests_run (hreachable.settled hloop) is
    | false =>
      -- Both runs make the same frame.
      have hleast := frames_le_advanceOn (run.frameOn keys host).1 keys limit
        (run.frameOn keys host).2
      rw [frames_frameOn] at hleast
      obtain ⟨n, rfl⟩ : ∃ k, n = k + 1 := ⟨n - 1, by omega⟩
      obtain ⟨now, is, -, hframe⟩ := run.exists_frameOn keys host
      have hlets : run.runner.Lets run.machine.isLooping := ⟨hrun, by simp [hloop]⟩
      obtain ⟨hrun', hdetect'⟩ := Runner.frame_keeps hlets (now - run.lastReading)
      have hframes := run.frames_frameOn keys host
      rw [advanceOn_succ hplain, frameOn_plain hloop]
      have hnext := ih (run.frameOn keys host).1 (by rw [hframe]; exact hrun')
        (by rw [hframe]; exact hdetect'.trans hdetect)
        (by rw [hframe]; exact hreachable.run is) _ hhalted n (by omega)
      rwa [hframes, Nat.add_assoc, Nat.add_comm 1 n] at hnext

end Run

/-- Halting on a loop does not change the outcome. Take any reachable machine, and two runners that
differ in nothing but the detection of loops, on the same host. If the run with detection halts on a
loop, then the run without it makes any greater number of frames and ends with the same registers,
memory, stack and screen; at most its timers have fallen further. -/
theorem rests_run_of_loopDetected {α σ : Type} [PaceNumber α] [Host (StateM σ)] (r : Runner α)
    {machine : Machine} (hreachable : machine.Reachable) (keys : HeldKeys) (limit : Nat)
    (host : σ) :
    let halted :=
      ((Runner.run { r with detectLoop := true } machine keys limit : StateM σ _).run host).1
    halted.runner.status = .halted .loopDetected → ∀ n, halted.frames ≤ n →
      let plain :=
        ((Runner.run { r with detectLoop := false } machine keys n : StateM σ _).run host).1
      plain.frames = n ∧ halted.machine.Rests plain.machine := by
  intro halted hstatus n hn plain
  -- Both runs begin with the same reading of the clock.
  have hoff : halted.runner.isRunning = false := by
    rw [Runner.isRunning, hstatus]
    rfl
  have hbegun := Run.rests_advanceOn_plain
    ⟨Runner.start { r with detectLoop := true }, machine, ((Host.now : StateM σ Nat).run host).1, 0⟩
    rfl rfl hreachable keys limit _ hoff n (by rw [Nat.zero_add]; exact hn)
  rw [Nat.zero_add] at hbegun
  exact hbegun

/-- A machine that sets its delay timer and then jumps to its own address. -/
def delayThenJump : Machine :=
  (Machine.new.loadProgram [0x60, 0x3C, 0xF0, 0x15, 0x12, 0x04]).2

/-- A runner that executes three instructions a frame. -/
def threeAFrame : Runner Rat := .ofSettings { Settings.default with speed := 180 }

/-- The run of that machine on a host whose readings each take a nanosecond. -/
def delayThenJumpRun (r : Runner Rat) (detectLoop : Bool) (maxFrames : Nat) : Run Rat :=
  ((Runner.run { r with detectLoop := detectLoop } delayThenJump Keypad.none maxFrames :
    StateM Tape _).run ⟨0, fun _ => 1, fun _ => 0⟩).1

theorem delayThenJumpRun_rests :
    delayThenJump.Reachable ∧
      (delayThenJumpRun threeAFrame true 9).runner.status = .halted .loopDetected ∧
      (delayThenJumpRun threeAFrame true 9).frames = 2 ∧
      (delayThenJumpRun threeAFrame true 9).machine.state.delay = 60 ∧
      (delayThenJumpRun threeAFrame false 4).machine.state.delay = 57 ∧
      (delayThenJumpRun threeAFrame false 4).frames = 4 ∧
      (delayThenJumpRun threeAFrame true 9).machine.Rests
        (delayThenJumpRun threeAFrame false 4).machine := by
  have hreachable : delayThenJump.Reachable := .loadProgram rfl
  have hstatus : (delayThenJumpRun threeAFrame true 9).runner.status = .halted .loopDetected := by
    decide +kernel
  have hframes : (delayThenJumpRun threeAFrame true 9).frames = 2 := by decide +kernel
  have hle : (delayThenJumpRun threeAFrame true 9).frames ≤ 4 := by
    rw [hframes]
    decide
  have hrests : (delayThenJumpRun threeAFrame false 4).frames = 4 ∧
      (delayThenJumpRun threeAFrame true 9).machine.Rests
        (delayThenJumpRun threeAFrame false 4).machine := by
    unfold delayThenJumpRun at hstatus hle ⊢
    exact rests_run_of_loopDetected threeAFrame hreachable Keypad.none 9 _ hstatus 4 hle
  refine ⟨hreachable, hstatus, hframes, ?_, ?_, hrests⟩
  · decide +kernel
  · decide +kernel

end Chip8
