import Chip8.Proofs.Decoding
import Chip8.Proofs.Run

/-!
# Jumps to their own address

A machine that has just jumped to its own address does nothing else from then on: only its timers
still fall (`Machine.settled_run`). So a halt on that ground is final, for runs of any length and
any environment.

The program counter has sixteen bits and a jump target twelve. A jump to the own address modulo the
memory size is therefore recognised at once only below the end of memory; otherwise it leads to its
own alias there and is recognised one step later.
-/

set_option autoImplicit false

namespace Chip8

/-- A word depends on the cell that its address names. -/
theorem Memory.word_congr (m : Memory) {a b : UInt16} (h : a.toNat % 4096 = b.toNat % 4096) :
    m.word a = m.word b := by
  have hhigh : cell a = cell b := Fin.ext h
  have hlow : cell (a + 1) = cell (b + 1) := by
    apply Fin.ext
    show (a + 1).toNat % 4096 = (b + 1).toNat % 4096
    rw [UInt16.toNat_add, UInt16.toNat_add]
    show (a.toNat + 1) % 65536 % 4096 = (b.toNat + 1) % 65536 % 4096
    omega
  rw [word, word, read, read, read, read, hhigh, hlow]

namespace Machine

/-- The next instruction is a jump to its own address. -/
def JumpsToItself (m : Machine) : Prop :=
  m.next.opcode = .jump ∧ m.next.operand.addr = m.state.pc

/-- The latest instruction was a jump to its own address, which is executed again next. -/
structure Settled (m : Machine) : Prop where
  jumps : m.JumpsToItself
  last : m.last = m.next
  lastPc : m.lastPc = m.state.pc

theorem isLooping_iff (m : Machine) :
    m.isLooping = true ↔ m.last.opcode = .jump ∧ m.last.operand.addr = m.lastPc := by
  simp only [isLooping, Bool.and_eq_true, decide_eq_true_eq]

/-- The state after a jump. -/
theorem step_state_of_jump {m : Machine} (i : StepInputs) (h : m.next.opcode = .jump) :
    (m.step i).state =
      { m.state.countDown (m.ticksAt i.now i.frozen) with pc := m.next.operand.addr } := by
  rw [step_state, State.execute, h]
  simp [State.jumpTo, State.advance]

/-- The latest instruction is recognised exactly when it jumped to where it stood. -/
theorem isLooping_step_iff (m : Machine) (i : StepInputs) :
    (m.step i).isLooping = true ↔
      m.next.opcode = .jump ∧ (m.step i).state.pc = m.state.pc := by
  rw [isLooping_iff, step_last, step_lastPc]
  refine and_congr_right fun h => ?_
  rw [step_state_of_jump i h]

theorem isLooping_step_iff_jumpsToItself (m : Machine) (i : StepInputs) :
    (m.step i).isLooping = true ↔ m.JumpsToItself := by
  rw [isLooping_iff, step_last, step_lastPc, JumpsToItself]

/-- A jump to its own address changes nothing but the timers. -/
theorem JumpsToItself.step_state_eq {m : Machine} (h : m.JumpsToItself) (i : StepInputs) :
    (m.step i).state = m.state.countDown (m.ticksAt i.now i.frozen) := by
  rw [step_state_of_jump i h.1, h.2]
  rfl

theorem JumpsToItself.settled_step {m : Machine} (h : m.JumpsToItself) (i : StepInputs) :
    (m.step i).Settled := by
  have hstate := h.step_state_eq i
  have hnext : (m.step i).next = m.next := by
    rw [next, hstate]
    rfl
  have hpc : (m.step i).state.pc = m.state.pc := by
    rw [hstate]
    rfl
  refine ⟨?_, ?_, ?_⟩
  · rw [JumpsToItself, hnext, hpc]
    exact h
  · rw [step_last, hnext]
  · rw [step_lastPc, hpc]

theorem Settled.isLooping {m : Machine} (h : m.Settled) : m.isLooping = true := by
  rw [isLooping_iff, h.last, h.lastPc]
  exact h.jumps

/-- A settled machine stays so; its timers fall, and nothing else changes. -/
theorem settled_run {m : Machine} (h : m.Settled) (is : List StepInputs) :
    (m.run is).Settled ∧ (m.run is).last = m.last ∧
      ∃ k, (m.run is).state = m.state.countDown k := by
  induction is generalizing m with
  | nil => exact ⟨h, rfl, 0, m.state.countDown_zero.symm⟩
  | cons i is ih =>
    -- The ticks of the steps add up.
    obtain ⟨hsettled, hlast, k, hstate⟩ := ih (h.jumps.settled_step i)
    refine ⟨hsettled, ?_, m.ticksAt i.now i.frozen + k, ?_⟩
    · rw [run_cons, hlast, step_last, h.last]
    · rw [run_cons, hstate, h.jumps.step_state_eq i, State.countDown_countDown]

/-- `b` is `a` with timers that may have fallen. The clock does not count. -/
structure Rests (a b : Machine) : Prop where
  v : b.state.v = a.state.v
  i : b.state.i = a.state.i
  pc : b.state.pc = a.state.pc
  sp : b.state.sp = a.state.sp
  stack : b.state.stack = a.state.stack
  memory : b.state.memory = a.state.memory
  screen : b.state.screen = a.state.screen
  last : b.last = a.last
  isLooping : b.isLooping = a.isLooping
  delay : b.state.delay ≤ a.state.delay
  sound : b.state.sound ≤ a.state.sound

theorem rests_run {m : Machine} (h : m.Settled) (is : List StepInputs) : m.Rests (m.run is) := by
  obtain ⟨hsettled, hlast, k, hstate⟩ := settled_run h is
  have hdelay : (m.run is).state.delay ≤ m.state.delay := by
    rw [hstate, UInt8.le_iff_toNat_le, State.toNat_delay_countDown]
    omega
  have hsound : (m.run is).state.sound ≤ m.state.sound := by
    rw [hstate, UInt8.le_iff_toNat_le, State.toNat_sound_countDown]
    omega
  have hlooping : (m.run is).isLooping = m.isLooping := by
    rw [hsettled.isLooping, h.isLooping]
  refine ⟨?_, ?_, ?_, ?_, ?_, ?_, ?_, hlast, hlooping, hdelay, hsound⟩ <;>
    · rw [hstate]
      rfl

/-! ## Program counters beyond the end of memory -/

/-- The word at the program counter is a jump to the program counter modulo the memory size. -/
def JumpsToAlias (m : Machine) : Prop :=
  (m.state.wordAt m.state.pc).toNat = 4096 + m.state.pc.toNat % 4096

theorem JumpsToAlias.opcode {m : Machine} (h : m.JumpsToAlias) : m.next.opcode = .jump := by
  apply Instruction.opcode_ofWord_eq_jump_iff.2
  rw [JumpsToAlias] at h
  omega

theorem JumpsToAlias.toNat_addr {m : Machine} (h : m.JumpsToAlias) :
    m.next.operand.addr.toNat = m.state.pc.toNat % 4096 := by
  have hnext : m.next = ⟨.jump, .ofWord (m.state.wordAt m.state.pc)⟩ :=
    Instruction.ofWord_eq_of_opcode (by decide) h.opcode
  rw [hnext, Operand.toNat_addr_ofWord, h]
  omega

/-- Below the end of memory the alias is the program counter itself. -/
theorem JumpsToAlias.jumpsToItself {m : Machine} (h : m.JumpsToAlias)
    (hpc : m.state.pc.toNat < 4096) : m.JumpsToItself := by
  refine ⟨h.opcode, UInt16.toNat_inj.1 ?_⟩
  rw [h.toNat_addr, Nat.mod_eq_of_lt hpc]

/-- The jump leads to the alias, where the same word stands. -/
theorem JumpsToAlias.jumpsToItself_step {m : Machine} (h : m.JumpsToAlias) (i : StepInputs) :
    (m.step i).JumpsToItself := by
  have hstate := step_state_of_jump i h.opcode
  have hpc : (m.step i).state.pc.toNat = m.state.pc.toNat % 4096 := by
    rw [hstate]
    exact h.toNat_addr
  have hmemory : (m.step i).state.memory = m.state.memory := by
    rw [hstate]
    rfl
  -- The jump writes no memory, and both program counters name the same cell.
  have hword : (m.step i).state.wordAt (m.step i).state.pc = m.state.wordAt m.state.pc := by
    rw [State.wordAt, hmemory]
    exact m.state.memory.word_congr (by omega)
  apply JumpsToAlias.jumpsToItself
  · rw [JumpsToAlias, hword, h]
    omega
  · omega

end Machine

/-- Loop detection. It holds after a step exactly when the step executed a jump that left the
program counter where it was. Once it holds, nothing but the timers changes any more, and these only
fall. A jump to the program counter modulo the memory size makes it hold within two steps, and at
once if the program counter lies in memory. -/
theorem isLooping_sound_stable_complete (m : Machine) (i : StepInputs) :
    ((m.step i).isLooping = true ↔
      (m.state.wordAt m.state.pc).toNat / 4096 = 1 ∧ (m.step i).state.pc = m.state.pc) ∧
    ((m.step i).isLooping = true → ∀ is js : List StepInputs,
      (m.step i).Rests ((m.step i).run is) ∧
        ((m.step i).run is).Rests ((m.step i).run (is ++ js))) ∧
    ((m.state.wordAt m.state.pc).toNat = 4096 + m.state.pc.toNat % 4096 →
      (m.state.pc.toNat < 4096 → (m.step i).isLooping = true) ∧
        ∀ j : StepInputs, ((m.step i).step j).isLooping = true) := by
  refine ⟨?_, ?_, ?_⟩
  · rw [Machine.isLooping_step_iff, Machine.next, State.instructionAt,
      Instruction.opcode_ofWord_eq_jump_iff]
  · intro h is js
    have hsettled := ((m.isLooping_step_iff_jumpsToItself i).1 h).settled_step i
    rw [Machine.run_append]
    exact ⟨Machine.rests_run hsettled is,
      Machine.rests_run (Machine.settled_run hsettled is).1 js⟩
  · intro h
    have halias : m.JumpsToAlias := h
    refine ⟨fun hpc => ?_, fun j => ?_⟩
    · exact (m.isLooping_step_iff_jumpsToItself i).2 (halias.jumpsToItself hpc)
    · exact ((m.step i).isLooping_step_iff_jumpsToItself j).2 (halias.jumpsToItself_step i)

/-- Beyond the end of memory a jump to the alias takes the second step. -/
example :
    let m : Machine := { Machine.ofProgram [0x12, 0x00] (.unnamed 2) with state.pc := 0x1200 }
    let i : StepInputs := ⟨⟨Keypad.none, 0⟩, 0, false⟩
    (m.step i).isLooping = false ∧ ((m.step i).step i).isLooping = true := by
  decide +kernel

end Chip8
