import Chip8.Proofs.Tape
import Chip8.Runner.Run
import Mathlib.Tactic.ByContra

/-!
# Runs frame by frame

What a runner decides for a frame depends on whether it lets the machine run (`Runner.Lets`): only
then does the machine execute anything. A frame of a run is a sequence of steps of its machine,
whatever the host answers (`Run.exists_frameOn`), and a run of frames ends where the runner halts
(`Run.advanceOn_of_not_running`).

The host of a run may be any that has a state. Its readings of the clock and its bytes may depend in
any way on what it was asked before.
-/

set_option autoImplicit false

namespace Chip8

namespace Runner

variable {α : Type} [PaceNumber α]

/-- Whether an update lets the machine run: the runner is running, and no loop halts it. -/
def Lets (r : Runner α) (looping : Bool) : Prop :=
  r.isRunning = true ∧ ¬ (r.detectLoop = true ∧ looping = true)

theorem frame_of_lets {r : Runner α} {looping : Bool} (h : r.Lets looping) (span : Nat) :
    r.frame span looping =
      (⟨(r.pacer.advance span).1, r.stopTimers && !r.ranLast⟩,
        { r with pacer := (r.pacer.advance span).2, ranLast := true }) := by
  obtain ⟨hrun, hloop⟩ := h
  rw [frame, if_pos hrun]
  simp only [Bool.and_eq_true, hloop, if_false]

/-- An update that does not let the machine run executes nothing and is remembered as a halt. -/
theorem frame_of_not_lets {r : Runner α} {looping : Bool} (h : ¬ r.Lets looping) (span : Nat) :
    (r.frame span looping).1 = .idle ∧ (r.frame span looping).2.ranLast = false := by
  rw [frame]
  split
  · next hrun =>
    have hloop : r.detectLoop && looping := by
      by_contra hne
      exact h ⟨hrun, by simpa using hne⟩
    dsimp only
    rw [if_pos hloop]
    exact ⟨rfl, rfl⟩
  · exact ⟨rfl, rfl⟩

theorem frame_ranLast (r : Runner α) (span : Nat) (looping : Bool) :
    (r.frame span looping).2.ranLast = true ↔ r.Lets looping := by
  by_cases h : r.Lets looping
  · simp [frame_of_lets h, h]
  · simp [frame_of_not_lets h, h]

theorem frame_stopTimers (r : Runner α) (span : Nat) (looping : Bool) :
    (r.frame span looping).2.stopTimers = r.stopTimers := by
  rw [frame]
  split
  · dsimp only
    split <;> rfl
  · rfl

end Runner

/-! ## Runs on a host with a state -/

namespace Run

variable {α σ : Type} [PaceNumber α] [Host (StateM σ)]

/-- A run after one more frame, and the host then. -/
def frameOn (run : Run α) (keys : HeldKeys) (host : σ) : Run α × σ :=
  (run.frame keys : StateM σ _).run host

/-- A run after at most `n` more frames, and the host then. -/
def advanceOn (run : Run α) (keys : HeldKeys) (n : Nat) (host : σ) : Run α × σ :=
  (run.advance keys n : StateM σ _).run host

/-- A frame in full: the host sleeps and reads the clock, the runner decides, and the machine makes
as many steps as it says. -/
theorem frameOn_eq (run : Run α) (keys : HeldKeys) (host : σ) :
    run.frameOn keys host =
      let slept := ((Host.sleep frameInterval : StateM σ Unit).run host).2
      let now := (Host.now : StateM σ Nat).run slept
      let decided := run.runner.frame (now.1 - run.lastReading) run.machine.isLooping
      let fed := (stepInputs keys decided.1.frozen decided.1.count.toNat : StateM σ _).run now.2
      (⟨decided.2, run.machine.run fed.1, now.1, run.frames + 1⟩, fed.2) := by
  simp only [frameOn, frame, frameAt, Runner.update_eq_map]
  rfl

/-- In a frame the runner decides, and the machine makes as many steps as it says. -/
theorem exists_frameOn (run : Run α) (keys : HeldKeys) (host : σ) :
    ∃ now is, is.length =
        (run.runner.frame (now - run.lastReading) run.machine.isLooping).1.count.toNat ∧
      (run.frameOn keys host).1 =
        ⟨(run.runner.frame (now - run.lastReading) run.machine.isLooping).2, run.machine.run is,
          now, run.frames + 1⟩ := by
  rw [frameOn_eq]
  exact ⟨_, _, length_stepInputs _ _ _ _, rfl⟩

theorem frames_frameOn (run : Run α) (keys : HeldKeys) (host : σ) :
    (run.frameOn keys host).1.frames = run.frames + 1 := by
  obtain ⟨now, is, -, hframe⟩ := run.exists_frameOn keys host
  rw [hframe]

@[simp]
theorem advanceOn_zero (run : Run α) (keys : HeldKeys) (host : σ) :
    run.advanceOn keys 0 host = (run, host) := rfl

theorem advanceOn_succ {run : Run α} (h : run.runner.isRunning = true) (keys : HeldKeys) (n : Nat)
    (host : σ) :
    run.advanceOn keys (n + 1) host =
      (run.frameOn keys host).1.advanceOn keys n (run.frameOn keys host).2 := by
  rw [advanceOn, advance, if_pos h]
  rfl

/-- A run ends where its runner halts. -/
theorem advanceOn_of_not_running {run : Run α} (h : run.runner.isRunning = false) (keys : HeldKeys)
    (n : Nat) (host : σ) : run.advanceOn keys n host = (run, host) := by
  cases n with
  | zero => rfl
  | succ n =>
    rw [advanceOn, advance, if_neg (by simp [h])]
    rfl

/-- A number of frames and then some more. -/
theorem advanceOn_add (run : Run α) (keys : HeldKeys) (a b : Nat) (host : σ) :
    run.advanceOn keys (a + b) host =
      (run.advanceOn keys a host).1.advanceOn keys b (run.advanceOn keys a host).2 := by
  induction a generalizing run host with
  | zero => rw [Nat.zero_add, advanceOn_zero]
  | succ a ih =>
    rw [Nat.add_right_comm]
    cases hrun : run.runner.isRunning with
    | true => rw [advanceOn_succ hrun, advanceOn_succ hrun, ih]
    | false => simp only [advanceOn_of_not_running hrun]

theorem frames_le_advanceOn (run : Run α) (keys : HeldKeys) (n : Nat) (host : σ) :
    run.frames ≤ (run.advanceOn keys n host).1.frames := by
  induction n generalizing run host with
  | zero => exact Nat.le_refl _
  | succ n ih =>
    cases hrun : run.runner.isRunning with
    | true =>
      rw [advanceOn_succ hrun]
      have hframe := run.frames_frameOn keys host
      have hrest := ih (run.frameOn keys host).1 (run.frameOn keys host).2
      omega
    | false =>
      exact Nat.le_of_eq (by rw [advanceOn_of_not_running hrun])

/-- The frames of a run on the caller's own time are steps of its machine. -/
theorem exists_run_advanceOn (run : Run α) (keys : HeldKeys) (n : Nat) (host : σ) :
    ∃ is, (run.advanceOn keys n host).1.machine = run.machine.run is := by
  induction n generalizing run host with
  | zero => exact ⟨[], rfl⟩
  | succ n ih =>
    cases hrun : run.runner.isRunning with
    | false => exact ⟨[], by rw [advanceOn_of_not_running hrun, Machine.run_nil]⟩
    | true =>
      obtain ⟨now, is, -, hframe⟩ := run.exists_frameOn keys host
      obtain ⟨js, hjs⟩ := ih (run.frameOn keys host).1 (run.frameOn keys host).2
      refine ⟨is ++ js, ?_⟩
      rw [advanceOn_succ hrun, hjs, hframe, Machine.run_append]

end Run

end Chip8
