import Chip8.Proofs.SharedRun

/-!
# What is done to machines

A machine executes instructions in single steps, in cycles of steps and in the frames of runners.
`m.Makes is m'` says that `m` becomes `m'` in these ways, in any order, where `is` is what the steps
took from outside. However the steps are divided among the calls, the machine is that of a run of
them (`Makes.eq_run`).

Apart from that a machine can be reset and loaded, time can pass for it, and a runner can run it
over many frames. The machines that come about so, without a write to their state from outside, are
the operated ones (`Operated`).

The host may be any that has a state, and each call may find another host and another runner.
-/

set_option autoImplicit false

namespace Chip8

variable {α σ : Type} [PaceNumber α] [Host (StateM σ)]

/-- What `n` steps with the same keys take from a host. -/
def stepInputsOn (keys : HeldKeys) (frozen : Bool) (n : Nat) (host : σ) : List StepInputs :=
  ((stepInputs keys frozen n : StateM σ _).run host).1

/-- A machine after a cycle of `n` steps on a host. -/
def Machine.cycleOn (m : Machine) (keys : HeldKeys) (frozen : Bool) (n : Nat) (host : σ) :
    Machine :=
  ((m.cycle keys frozen n : StateM σ _).run host).1

namespace Runner

/-- A machine after a call of the runner for a single step. -/
def stepOn (r : Runner α) (m : Machine) (keys : HeldKeys) (host : σ) : Machine :=
  ((r.step m keys : StateM σ _).run host).1.2

/-- What the single step takes from the host. A runner that is running makes none. -/
def singleInputs (r : Runner α) (keys : HeldKeys) (host : σ) : List StepInputs :=
  if r.isRunning then [] else stepInputsOn keys false 1 host

/-- A machine after a frame of the runner. -/
def updateOn (r : Runner α) (m : Machine) (span : Nat) (keys : HeldKeys) (host : σ) : Machine :=
  ((r.update m span keys : StateM σ _).run host).1.2.2

/-- What the steps of the frame take from the host. -/
def frameInputs (r : Runner α) (m : Machine) (span : Nat) (keys : HeldKeys) (host : σ) :
    List StepInputs :=
  let frame := (r.frame span m.isLooping).1
  stepInputsOn keys frame.frozen frame.count.toNat host

end Runner

theorem Machine.cycleOn_eq_run (m : Machine) (keys : HeldKeys) (frozen : Bool) (n : Nat)
    (host : σ) : m.cycleOn keys frozen n host = m.run (stepInputsOn keys frozen n host) := by
  rw [cycleOn, cycle_eq_map_run]
  rfl

omit [PaceNumber α] in
theorem Runner.stepOn_eq_run (r : Runner α) (m : Machine) (keys : HeldKeys) (host : σ) :
    r.stepOn m keys host = m.run (r.singleInputs keys host) := by
  rw [stepOn, step, singleInputs]
  split
  · rfl
  · rw [Machine.cycle_eq_map_run]
    rfl

theorem Runner.updateOn_eq_run (r : Runner α) (m : Machine) (span : Nat) (keys : HeldKeys)
    (host : σ) : r.updateOn m span keys host = m.run (r.frameInputs m span keys host) := by
  rw [updateOn, update_eq_map]
  rfl

/-! ## Steps, however they are made -/

namespace Machine

/-- A machine makes steps and becomes another machine. The steps are listed by what they take from
outside. -/
inductive Makes (m : Machine) : List StepInputs → Machine → Prop where
  | none : Makes m [] m
  | step {is : List StepInputs} {m' : Machine} (i : StepInputs) :
      Makes m is m' → Makes m (is ++ [i]) (m'.step i)
  | cycle {σ : Type} [Host (StateM σ)] {is : List StepInputs} {m' : Machine} (keys : HeldKeys)
      (frozen : Bool) (n : Nat) (host : σ) :
      Makes m is m' →
        Makes m (is ++ stepInputsOn keys frozen n host) (m'.cycleOn keys frozen n host)
  | single {α σ : Type} [Host (StateM σ)] {is : List StepInputs} {m' : Machine}
      (r : Runner α) (keys : HeldKeys) (host : σ) :
      Makes m is m' → Makes m (is ++ r.singleInputs keys host) (r.stepOn m' keys host)
  | frame {α σ : Type} [PaceNumber α] [Host (StateM σ)] {is : List StepInputs} {m' : Machine}
      (r : Runner α) (span : Nat) (keys : HeldKeys) (host : σ) :
      Makes m is m' →
        Makes m (is ++ r.frameInputs m' span keys host) (r.updateOn m' span keys host)

/-- How steps are divided into cycles and frames does not matter. -/
theorem Makes.eq_run {m m' : Machine} {is : List StepInputs} (h : m.Makes is m') :
    m' = m.run is := by
  induction h with
  | none => rfl
  | step i _ ih => rw [ih, run_append, run_cons, run_nil]
  | cycle keys frozen n host _ ih => rw [cycleOn_eq_run, ih, run_append]
  | single r keys host _ ih => rw [Runner.stepOn_eq_run, ih, run_append]
  | frame r span keys host _ ih => rw [Runner.updateOn_eq_run, ih, run_append]

end Machine

/-! ## Runs of many frames -/

/-- The frames of a run under outside control are steps of its machine. -/
theorem SharedRun.exists_run_advanceOn (schedule : Nat → List ControlEvent) (s : SharedRun α)
    (limit : Nat) (host : σ) :
    ∃ is, (s.advanceOn schedule limit host).1.run.machine = s.run.machine.run is := by
  induction limit generalizing s host with
  | zero => exact ⟨[], rfl⟩
  | succ limit ih =>
    by_cases hover : s.Over schedule
    · exact ⟨[], by rw [(advanceOn_of_over hover limit host).2, Machine.run_nil]⟩
    · obtain ⟨now, is, -, hframe⟩ := s.run.exists_frameOn (s.nextControls schedule).keys host
      rw [advanceOn_succ hover]
      obtain ⟨js, hjs⟩ := ih _ _
      refine ⟨is ++ js, ?_⟩
      rw [hjs, hframe, Machine.run_append]

theorem Runner.exists_run_run (r : Runner α) (m : Machine) (keys : HeldKeys) (limit : Nat)
    (host : σ) : ∃ is, ((r.run m keys limit : StateM σ _).run host).1.machine = m.run is :=
  Run.exists_run_advanceOn ⟨r.start, m, ((Host.now : StateM σ Nat).run host).1, 0⟩ keys limit _

theorem Runner.exists_run_runShared (r : Runner α) (m : Machine) (c : Controls)
    (schedule : Nat → List ControlEvent) (limit : Nat) (host : σ) :
    ∃ is, ((r.runShared m c schedule limit : StateM σ _).run host).1.run.machine = m.run is :=
  SharedRun.exists_run_advanceOn schedule
    ⟨⟨r.start, m, ((Host.now : StateM σ Nat).run host).1, 0⟩, c, 0, false⟩ limit _

/-! ## Machines without a write from outside -/

namespace Machine

/-- Machines that were made new at some time, whatever has been done to them since, except for
writes to their state from outside. A load need not have succeeded. -/
inductive Operated : Machine → Prop where
  | new : Operated .new
  | reset {m : Machine} : Operated m → Operated m.reset
  | loadProgram {m : Machine} (program : List UInt8) :
      Operated m → Operated (m.loadProgram program).2
  | loadFile {m : Machine} (path : Path) (file : Rom.FileView) :
      Operated m → Operated (m.loadFile path file).2
  | decay {m : Machine} (span : Nat) : Operated m → Operated (m.decay span)
  | makes {m m' : Machine} {is : List StepInputs} : Operated m → m.Makes is m' → Operated m'
  | run {α σ : Type} [PaceNumber α] [Host (StateM σ)] {m : Machine} (r : Runner α)
      (keys : HeldKeys) (limit : Nat) (host : σ) :
      Operated m → Operated ((r.run m keys limit : StateM σ _).run host).1.machine
  | runShared {α σ : Type} [PaceNumber α] [Host (StateM σ)] {m : Machine} (r : Runner α)
      (c : Controls) (schedule : Nat → List ControlEvent) (limit : Nat) (host : σ) :
      Operated m →
        Operated ((r.runShared m c schedule limit : StateM σ _).run host).1.run.machine

/-- What every new and every freshly loaded machine has, and what steps and time that passes keep,
every operated machine has. -/
theorem Operated.induction {P : Machine → Prop} (hnew : P .new)
    (hload : ∀ program rom, P (ofProgram program rom)) (hdecay : ∀ m span, P m → P (m.decay span))
    (hstep : ∀ m i, P m → P (m.step i)) {m : Machine} (h : m.Operated) : P m := by
  have hrun : ∀ is m, P m → P (m.run is) := by
    intro is
    induction is with
    | nil => exact fun m hm => hm
    | cons i is ih => exact fun m hm => ih _ (hstep m i hm)
  induction h with
  | new => exact hnew
  | reset _ _ => exact hnew
  | loadProgram program _ ih =>
    -- A load starts the machine anew, or else leaves it as it was.
    unfold Machine.loadProgram
    split
    · exact hload _ _
    · exact ih
  | loadFile path file _ ih =>
    unfold Machine.loadFile
    split
    · exact hload _ _
    · exact ih
  | decay span _ ih => exact hdecay _ span ih
  | makes _ hmakes ih =>
    rw [hmakes.eq_run]
    exact hrun _ _ ih
  | run r keys limit host _ ih =>
    obtain ⟨is, his⟩ := r.exists_run_run _ keys limit host
    rw [his]
    exact hrun is _ ih
  | runShared r c schedule limit host _ ih =>
    obtain ⟨is, his⟩ := r.exists_run_runShared _ c schedule limit host
    rw [his]
    exact hrun is _ ih

end Machine

end Chip8
