import Chip8.Proofs.LoopHalt
import Chip8.Proofs.SharedRun
import Mathlib.Order.Bounds.Basic

/-!
# Where a run ends

A run makes frames while its runner is running, and at most a given number. It always ends, namely
after the least number of frames for which there is a reason (`Run.exists_isLeast_endsAt`).

A runner that detects loops looks for one at the beginning of each frame. So the run halts in the
first frame that begins with a machine that jumps to its own address, and that frame executes
nothing. It may be the last frame allowed. Without such a frame the run makes all its frames and is
left running (`run_ends_at_first_loop`).
-/

set_option autoImplicit false

namespace Chip8

namespace Runner

variable {α : Type} [PaceNumber α]

theorem frame_detectLoop (r : Runner α) (span : Nat) (looping : Bool) :
    (r.frame span looping).2.detectLoop = r.detectLoop := by
  rw [frame]
  split
  · dsimp only
    split
    · rfl
    · rfl
  · rfl

end Runner

namespace Run

variable {α σ : Type} [PaceNumber α] [Host (StateM σ)]

/-- The next frame detects a loop. -/
def Detects (run : Run α) : Prop :=
  run.runner.detectLoop = true ∧ run.machine.isLooping = true

/-! ## One frame -/

section

variable {run : Run α} (keys : HeldKeys) (host : σ)

theorem detectLoop_frameOn :
    (run.frameOn keys host).1.runner.detectLoop = run.runner.detectLoop := by
  obtain ⟨now, is, -, hframe⟩ := run.exists_frameOn keys host
  rw [hframe]
  exact run.runner.frame_detectLoop _ _

/-- A frame that detects no loop leaves the runner running. -/
theorem isRunning_frameOn (hrun : run.runner.isRunning = true) (h : ¬ run.Detects) :
    (run.frameOn keys host).1.runner.isRunning = true := by
  obtain ⟨now, is, -, hframe⟩ := run.exists_frameOn keys host
  rw [hframe]
  exact (Runner.frame_keeps ⟨hrun, h⟩ _).1

/-- A frame that detects a loop halts the runner for that reason. -/
theorem status_frameOn_of_detects (hrun : run.runner.isRunning = true) (h : run.Detects) :
    (run.frameOn keys host).1.runner.status = .halted .loopDetected := by
  obtain ⟨hdetect, hloop⟩ := h
  obtain ⟨now, is, -, hframe⟩ := run.exists_frameOn keys host
  rw [hframe, hloop, Runner.frame, if_pos hrun, hdetect]
  rfl

end

/-! ## The frames before the end -/

section

variable {run : Run α} {keysAt : Nat → HeldKeys} {host : σ}

theorem frames_framesOn (run : Run α) (keysAt : Nat → HeldKeys) (k : Nat) (host : σ) :
    (run.framesOn keysAt k host).1.frames = run.frames + k := by
  induction k with
  | zero => rfl
  | succ k ih => rw [framesOn_succ, frames_frameOn, ih, Nat.add_assoc]

theorem detectLoop_framesOn (run : Run α) (keysAt : Nat → HeldKeys) (k : Nat) (host : σ) :
    (run.framesOn keysAt k host).1.runner.detectLoop = run.runner.detectLoop := by
  induction k with
  | zero => rfl
  | succ k ih => rw [framesOn_succ, detectLoop_frameOn, ih]

/-- The runner is running as long as no frame has detected a loop. -/
theorem isRunning_framesOn (hrun : run.runner.isRunning = true) {n : Nat}
    (h : ∀ k < n, ¬ (run.framesOn keysAt k host).1.Detects) :
    (run.framesOn keysAt n host).1.runner.isRunning = true := by
  induction n with
  | zero => exact hrun
  | succ n ih =>
    have hbefore := ih fun k hk => h k (Nat.lt_succ_of_lt hk)
    rw [framesOn_succ]
    exact isRunning_frameOn _ _ hbefore (h n (Nat.lt_succ_self n))

end

/-! ## The end -/

section

variable {run : Run α} {keys : HeldKeys} {limit : Nat} {host : σ}

/-- There is a reason for a run to end after a number of frames: its runner is not running, or the
limit is reached. -/
def EndsAt (run : Run α) (keys : HeldKeys) (limit : Nat) (host : σ) (k : Nat) : Prop :=
  ¬ ((run.framesOn (fun _ => keys) k host).1.runner.isRunning = true ∧ k < limit)

theorem endsAt_limit (run : Run α) (keys : HeldKeys) (limit : Nat) (host : σ) :
    run.EndsAt keys limit host limit := fun h => Nat.lt_irrefl limit h.2

/-- A run makes the frames up to the first reason to end, and no others. -/
theorem advanceOn_eq_framesOn_of_isLeast {n : Nat}
    (hleast : IsLeast {k | run.EndsAt keys limit host k} n) :
    run.advanceOn keys limit host = run.framesOn (fun _ => keys) n host := by
  obtain ⟨hends, hfirst⟩ := hleast
  have hle : n ≤ limit := hfirst (run.endsAt_limit keys limit host)
  have hrunning : ∀ k < n, (run.framesOn (fun _ => keys) k host).1.runner.isRunning = true := by
    intro k hk
    by_contra hhalted
    exact absurd (hfirst fun h => hhalted h.1) (Nat.not_le_of_lt hk)
  obtain ⟨further, rfl⟩ := Nat.exists_eq_add_of_le hle
  rw [advanceOn_add, advanceOn_eq_framesOn hrunning]
  -- There are no further frames, or the runner has halted.
  rcases Nat.eq_zero_or_pos further with rfl | hpos
  · rfl
  · apply advanceOn_of_not_running
    rw [← Bool.not_eq_true]
    exact fun hrun => hends ⟨hrun, Nat.lt_add_of_pos_right hpos⟩

/-- A run always ends: some number of frames is the least for which there is a reason. -/
theorem exists_isLeast_endsAt (run : Run α) (keys : HeldKeys) (limit : Nat) (host : σ) :
    ∃ n, IsLeast {k | run.EndsAt keys limit host k} n ∧
      run.advanceOn keys limit host = run.framesOn (fun _ => keys) n host ∧
      (run.advanceOn keys limit host).1.frames = run.frames + n := by
  classical
  have hends : {k | run.EndsAt keys limit host k}.Nonempty :=
    ⟨limit, run.endsAt_limit keys limit host⟩
  have hmade := advanceOn_eq_framesOn_of_isLeast hends.isLeast_natFind
  refine ⟨_, hends.isLeast_natFind, hmade, ?_⟩
  rw [hmade, frames_framesOn]

/-- The first frame that detects a loop is the last one. -/
theorem isLeast_endsAt_of_detects (hrun : run.runner.isRunning = true) {n : Nat} (hn : n < limit)
    (hdetects : (run.framesOn (fun _ => keys) n host).1.Detects)
    (hfirst : ∀ k < n, ¬ (run.framesOn (fun _ => keys) k host).1.Detects) :
    IsLeast {k | run.EndsAt keys limit host k} (n + 1) := by
  have hrunning : ∀ k ≤ n, (run.framesOn (fun _ => keys) k host).1.runner.isRunning = true :=
    fun k hk => isRunning_framesOn hrun fun j hj => hfirst j (Nat.lt_of_lt_of_le hj hk)
  constructor
  · rintro ⟨hstill, -⟩
    have hstatus := status_frameOn_of_detects keys (run.framesOn (fun _ => keys) n host).2
      (hrunning n (Nat.le_refl n)) hdetects
    rw [framesOn_succ, Runner.isRunning, hstatus] at hstill
    exact Bool.noConfusion hstill
  · intro k hends
    by_contra hlt
    have hk : k ≤ n := by omega
    exact hends ⟨hrunning k hk, by omega⟩

/-- If no frame detects a loop, all frames are made. -/
theorem isLeast_endsAt_limit (hrun : run.runner.isRunning = true)
    (hnone : ∀ k < limit, ¬ (run.framesOn (fun _ => keys) k host).1.Detects) :
    IsLeast {k | run.EndsAt keys limit host k} limit := by
  refine ⟨run.endsAt_limit keys limit host, fun k hends => ?_⟩
  by_contra hlt
  have hk : k < limit := by omega
  exact hends ⟨isRunning_framesOn hrun fun j hj => hnone j (by omega), hk⟩

/-- A run whose runner detects a loop ends there: with the frame that detects it, halted for that
reason, and with the machine from before that frame. -/
theorem advanceOn_of_detects (hrun : run.runner.isRunning = true) {n : Nat} (hn : n < limit)
    (hdetects : (run.framesOn (fun _ => keys) n host).1.Detects)
    (hfirst : ∀ k < n, ¬ (run.framesOn (fun _ => keys) k host).1.Detects) :
    let last := (run.advanceOn keys limit host).1
    last.frames = run.frames + (n + 1) ∧ last.runner.status = .halted .loopDetected ∧
      last.machine = (run.framesOn (fun _ => keys) n host).1.machine := by
  have hend := advanceOn_eq_framesOn_of_isLeast
    (isLeast_endsAt_of_detects hrun hn hdetects hfirst)
  have hrunning : (run.framesOn (fun _ => keys) n host).1.runner.isRunning = true :=
    isRunning_framesOn hrun hfirst
  intro last
  have hlast : last = (run.framesOn (fun _ => keys) (n + 1) host).1 := congrArg Prod.fst hend
  rw [hlast]
  refine ⟨run.frames_framesOn _ _ _, status_frameOn_of_detects _ _ hrunning hdetects, ?_⟩
  exact (frameOn_of_loopDetected hrunning hdetects.1 hdetects.2 keys _).2

/-- A run whose runner detects no loop makes all frames and leaves the runner running. -/
theorem advanceOn_of_not_detects (hrun : run.runner.isRunning = true)
    (hnone : ∀ k < limit, ¬ (run.framesOn (fun _ => keys) k host).1.Detects) :
    let last := (run.advanceOn keys limit host).1
    last.frames = run.frames + limit ∧ last.runner.status = .running := by
  have hend := advanceOn_eq_framesOn_of_isLeast (isLeast_endsAt_limit hrun hnone)
  intro last
  have hlast : last = (run.framesOn (fun _ => keys) limit host).1 := congrArg Prod.fst hend
  rw [hlast]
  exact ⟨run.frames_framesOn _ _ _, of_decide_eq_true (isRunning_framesOn hrun hnone)⟩

end

end Run

/-- A run ends at the latest with the last frame allowed, and its machine makes steps only. -/
theorem Runner.run_ends {α σ : Type} [PaceNumber α] [Host (StateM σ)] (r : Runner α)
    (machine : Machine) (keys : HeldKeys) (limit : Nat) (host : σ) :
    let run := ((r.run machine keys limit : StateM σ _).run host).1
    run.frames ≤ limit ∧ (run.frames = limit ∨ run.runner.isRunning = false) ∧
      ∃ is, run.machine = machine.run is := by
  intro run
  let now := (Host.now : StateM σ Nat).run host
  let begun : Run α := ⟨r.start, machine, now.1, 0⟩
  obtain ⟨n, hleast, hend, hcount⟩ := begun.exists_isLeast_endsAt keys limit now.2
  have hframes : run.frames = n := hcount.trans (Nat.zero_add n)
  have hle : n ≤ limit := hleast.2 (begun.endsAt_limit keys limit now.2)
  refine ⟨hframes ▸ hle, ?_, begun.exists_run_advanceOn keys limit now.2⟩
  -- If there were fewer frames, the runner is not running.
  rcases Nat.lt_or_eq_of_le hle with hlt | heq
  · right
    rw [← Bool.not_eq_true]
    intro hrun
    have hstill : (begun.framesOn (fun _ => keys) n now.2).1.runner.isRunning = true := by
      rw [← hend]
      exact hrun
    exact hleast.1 ⟨hstill, hlt⟩
  · exact .inl (hframes.trans heq)

/-- At its end a runner is still running, or it was halted by a loop. -/
theorem Runner.status_run {α σ : Type} [PaceNumber α] [Host (StateM σ)] (r : Runner α)
    (machine : Machine) (keys : HeldKeys) (limit : Nat) (host : σ) :
    let run := ((r.run machine keys limit : StateM σ _).run host).1
    run.runner.status = .running ∨ run.runner.status = .halted .loopDetected := by
  classical
  let now := (Host.now : StateM σ Nat).run host
  let begun : Run α := ⟨r.start, machine, now.1, 0⟩
  have hrun : begun.runner.isRunning = true := rfl
  by_cases h : ∃ k, k < limit ∧ (begun.framesOn (fun _ => keys) k now.2).1.Detects
  · obtain ⟨hlt, hdetects⟩ := Nat.find_spec h
    have hfirst : ∀ k < Nat.find h, ¬ (begun.framesOn (fun _ => keys) k now.2).1.Detects :=
      fun k hk hearlier => Nat.find_min h hk ⟨hk.trans hlt, hearlier⟩
    exact .inr (Run.advanceOn_of_detects hrun hlt hdetects hfirst).2.1
  · have hnone : ∀ k < limit, ¬ (begun.framesOn (fun _ => keys) k now.2).1.Detects :=
      fun k hk hdetects => h ⟨k, hk, hdetects⟩
    exact .inl (Run.advanceOn_of_not_detects hrun hnone).2

/-- A run ends at the first loop. Take any runner, whatever it was doing before, any machine, keys
and host, and any limit to the frames. The run ends after the least number of frames for which its
runner is not running or the limit is reached, and has made just these frames. If the runner detects
loops and some frame within the limit begins with a machine that has jumped to its own address, then
the first such frame is the last one; it executes nothing, leaves the machine as it was and halts
the runner for that reason. Otherwise all frames are made and the runner is running at the end. -/
theorem run_ends_at_first_loop {α σ : Type} [PaceNumber α] [Host (StateM σ)] (r : Runner α)
    (machine : Machine) (keys : HeldKeys) (limit : Nat) (host : σ) :
    let run := ((r.run machine keys limit : StateM σ _).run host).1
    let made := fun k => ((r.runFrames machine (fun _ => keys) k : StateM σ _).run host).1
    let Detected := fun f => 1 ≤ f ∧ f ≤ limit ∧ r.detectLoop = true ∧
      (made (f - 1)).machine.isLooping = true
    IsLeast {k | ¬ ((made k).runner.isRunning = true ∧ k < limit)} run.frames ∧
      run = made run.frames ∧
      (∀ f, IsLeast {f | Detected f} f →
        run.frames = f ∧ run.runner.status = .halted .loopDetected ∧
          run.machine = (made (f - 1)).machine ∧
          ∀ span, ((made (f - 1)).runner.frame span true).1.count = 0) ∧
      ((∀ f, ¬ Detected f) → run.frames = limit ∧ run.runner.status = .running) ∧
      (run.runner.status = .running ∨ run.runner.status = .halted .loopDetected) := by
  intro run made Detected
  -- All these runs begin with the same reading of the clock.
  let now := (Host.now : StateM σ Nat).run host
  let begun : Run α := ⟨r.start, machine, now.1, 0⟩
  have hrun : begun.runner.isRunning = true := rfl
  have hdetected : ∀ k, Detected (k + 1) ↔ k < limit ∧ (made k).Detects := by
    intro k
    have hkept : (made k).runner.detectLoop = r.detectLoop :=
      begun.detectLoop_framesOn (fun _ => keys) k now.2
    rw [Run.Detects, hkept]
    exact ⟨fun h => ⟨h.2.1, h.2.2⟩, fun h => ⟨Nat.succ_pos k, h.1, h.2⟩⟩
  obtain ⟨n, hleast, hend, hcount⟩ := begun.exists_isLeast_endsAt keys limit now.2
  have hmade : run = made n := congrArg Prod.fst hend
  have hframes : n = run.frames := (hcount.trans (Nat.zero_add n)).symm
  subst hframes
  have hloop : ∀ f, IsLeast {f | Detected f} f →
      run.frames = f ∧ run.runner.status = .halted .loopDetected ∧
        run.machine = (made (f - 1)).machine ∧
        ∀ span, ((made (f - 1)).runner.frame span true).1.count = 0 := by
    rintro f ⟨hf, hbefore⟩
    obtain ⟨k, rfl⟩ : ∃ k, f = k + 1 := ⟨f - 1, (Nat.sub_add_cancel hf.1).symm⟩
    obtain ⟨hk, hdetects⟩ := (hdetected k).1 hf
    have hfirst : ∀ j < k, ¬ (made j).Detects := by
      intro j hj h
      have hle : k + 1 ≤ j + 1 := hbefore ((hdetected j).2 ⟨by omega, h⟩)
      omega
    obtain ⟨hlast, hstatus, hmachine⟩ := Run.advanceOn_of_detects hrun hk hdetects hfirst
    refine ⟨hlast.trans (Nat.zero_add _), hstatus, hmachine, fun span => ?_⟩
    have hrunning : (made k).runner.isRunning = true := Run.isRunning_framesOn hrun hfirst
    rw [Nat.add_sub_cancel, (Runner.frame_of_loopDetected hrunning hdetects.1 span).1]
    rfl
  have hnone : (∀ f, ¬ Detected f) → run.frames = limit ∧ run.runner.status = .running := by
    intro h
    have hfirst : ∀ k < limit, ¬ (made k).Detects := by
      intro k hk hdetects
      exact h (k + 1) ((hdetected k).2 ⟨hk, hdetects⟩)
    obtain ⟨hlast, hstatus⟩ := Run.advanceOn_of_not_detects hrun hfirst
    exact ⟨hlast.trans (Nat.zero_add limit), hstatus⟩
  exact ⟨hleast, hmade, hloop, hnone, r.status_run machine keys limit host⟩

/-- The machine comes to its loop in the first frame. With two frames allowed the last one detects
it, with a single one none does. -/
theorem delayThenJump_ends :
    let host : Tape := ⟨0, fun _ => 1, fun _ => 0⟩
    let run := fun limit =>
      ((threeAFrame.run delayThenJump Keypad.none limit : StateM Tape _).run host).1
    let made := fun n =>
      ((threeAFrame.runFrames delayThenJump (fun _ => Keypad.none) n : StateM Tape _).run host).1
    let Detected := fun limit f => 1 ≤ f ∧ f ≤ limit ∧ threeAFrame.detectLoop = true ∧
      (made (f - 1)).machine.isLooping = true
    IsLeast {f | Detected 2 f} 2 ∧ (run 2).frames = 2 ∧
      (run 2).runner.status = .halted .loopDetected ∧ (run 2).machine = (made 1).machine ∧
      (∀ f, ¬ Detected 1 f) ∧ (run 1).frames = 1 ∧ (run 1).runner.status = .running := by
  intro host run made Detected
  have hstart : (made 0).machine.isLooping = false := by decide +kernel
  have hsecond : (made 1).machine.isLooping = true := by decide +kernel
  have hnotFirst : ∀ limit, ¬ Detected limit 1 := by
    rintro limit ⟨-, -, -, hloop⟩
    exact Bool.noConfusion (hstart.symm.trans hloop)
  have hleast : IsLeast {f | Detected 2 f} 2 := by
    refine ⟨⟨by decide, by decide, rfl, hsecond⟩, fun f hf => ?_⟩
    by_contra hlt
    obtain rfl : f = 1 := Nat.le_antisymm (by omega) hf.1
    exact hnotFirst 2 hf
  have hnone : ∀ f, ¬ Detected 1 f := by
    intro f hf
    obtain rfl : f = 1 := Nat.le_antisymm hf.2.1 hf.1
    exact hnotFirst 1 hf
  obtain ⟨-, -, htwo, -⟩ := run_ends_at_first_loop threeAFrame delayThenJump Keypad.none 2 host
  obtain ⟨-, -, -, hone, -⟩ := run_ends_at_first_loop threeAFrame delayThenJump Keypad.none 1 host
  obtain ⟨hframes, hstatus, hmachine, -⟩ := htwo 2 hleast
  exact ⟨hleast, hframes, hstatus, hmachine, hnone, hone hnone⟩

end Chip8
