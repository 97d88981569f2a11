import Chip8.Proofs.SelfJump

/-!
# Machines that programs bring about

A machine is reachable if it was made new, reset or loaded, and has only made steps since. Nobody
has written to its state from outside. Such a machine is recognised as looping only if it really
repeats a jump to its own address (`Machine.Reachable.settled`).
-/

set_option autoImplicit false

namespace Chip8.Machine

/-- Machines that were made new, reset or loaded successfully, and made steps since. -/
inductive Reachable : Machine → Prop where
  | new : Reachable .new
  | reset (m : Machine) : Reachable m.reset
  | loadProgram {m : Machine} {program : List UInt8} :
      (m.loadProgram program).1 = .ok () → Reachable (m.loadProgram program).2
  | loadFile {m : Machine} {path : Path} {file : Rom.FileView} :
      (m.loadFile path file).1 = .ok () → Reachable (m.loadFile path file).2
  | step {m : Machine} (i : StepInputs) : Reachable m → Reachable (m.step i)

theorem loadProgram_of_ok {m : Machine} {program : List UInt8}
    (h : (m.loadProgram program).1 = .ok ()) :
    (m.loadProgram program).2 = ofProgram program (.unnamed program.length) := by
  unfold loadProgram at h ⊢
  split at h
  · rfl
  · simp at h

theorem loadFile_of_ok {m : Machine} {path : Path} {file : Rom.FileView}
    (h : (m.loadFile path file).1 = .ok ()) :
    ∃ program, (m.loadFile path file).2 = ofProgram program (.ofPath path program.length) := by
  unfold loadFile at h ⊢
  split at h
  · exact ⟨_, rfl⟩
  · simp at h

namespace Reachable

theorem run {m : Machine} (h : m.Reachable) (is : List StepInputs) : (m.run is).Reachable := by
  induction is generalizing m with
  | nil => exact h
  | cons i is ih => exact ih (h.step i)

/-- A reachable machine that is recognised as looping has just jumped to its own address, and does
it again. -/
theorem settled {m : Machine} (h : m.Reachable) (hloop : m.isLooping = true) : m.Settled := by
  cases h with
  | new => exact Bool.noConfusion hloop
  | reset m => exact Bool.noConfusion hloop
  | loadProgram hok =>
    rw [loadProgram_of_ok hok] at hloop
    exact Bool.noConfusion hloop
  | loadFile hok =>
    obtain ⟨program, hprogram⟩ := loadFile_of_ok hok
    rw [hprogram] at hloop
    exact Bool.noConfusion hloop
  | step i _ => exact ((isLooping_step_iff_jumpsToItself _ i).1 hloop).settled_step i

end Reachable

end Chip8.Machine
