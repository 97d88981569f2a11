import Chip8.Proofs.Calls
import Chip8.Proofs.KeyWait
import Chip8.Proofs.RunEnd

/-!
# Waiting as long as no key is held

A machine does not rest while it waits for a key. Without a key the wait moves the program counter
back by as much as the end of the step moves it on, so that the same instruction is executed again
and only the timers fall (`Machine.Waits.run`). The first step with a key held ends the wait
(`Machine.Waits.step_of_first`).

A wait is no jump. So a machine that has made a step of its wait is not taken for a looping one,
and no runner halts on it, whatever it is called for and however many frames it makes
(`Driven.atWait_after`, `Runner.run_of_atWait`, `Runner.runShared_of_atWait`).
-/

set_option autoImplicit false

namespace Chip8

/-- No key is held. -/
def Keypad.NoneHeld (keys : HeldKeys) : Prop := ∀ slot, keys.get slot = false

theorem Keypad.noneHeld_none : NoneHeld none := fun slot => Cells.get_replicate false slot

/-! ## The instruction -/

namespace State

variable (s : State) (x : Nibble) {keys : HeldKeys}

/-- Without a key the wait goes back by as much as the step advances. -/
theorem advance_awaitKey_of_noneHeld (h : Keypad.NoneHeld keys) :
    (s.awaitKey x keys).advance = s := by
  have hvalues : (Keypad.heldValues keys).head? = none := by
    rw [Keypad.heldValues, Keypad.heldSlots_eq_nil_iff.2 h]
    rfl
  rw [awaitKey, hvalues]
  show { s with pc := s.pc - 2 + 2 } = s
  rw [UInt16.sub_add_cancel]

end State

/-! ## Steps -/

namespace Machine

theorem rom_step (m : Machine) (i : StepInputs) : (m.step i).rom = m.rom := by
  rw [step, executeNext, readClock]
  split <;> rfl

theorem rom_run (m : Machine) (is : List StepInputs) : (m.run is).rom = m.rom := by
  induction is generalizing m with
  | nil => rfl
  | cons i is ih => rw [run_cons, ih, rom_step]

/-- The next instruction waits for a key and stores its value in the register `x`. -/
def Waits (m : Machine) (x : Nibble) : Prop :=
  m.state.wordAt m.state.pc = wordOfBytes (byteOfNibbles 0xF x) (byteOfNibbles 0x0 0xA)

instance (m : Machine) (x : Nibble) : Decidable (m.Waits x) := inferInstanceAs (Decidable (_ = _))

namespace Waits

variable {m : Machine} {x : Nibble}

theorem next_eq (h : m.Waits x) : m.next = ⟨.awaitKey, ⟨x, 0x0, 0xA⟩⟩ := by
  rw [next, State.instructionAt, h, Instruction.ofWord_of_fits .awaitKey rfl rfl]

/-- The timers have no part in a wait. -/
theorem of_countDown {m' : Machine} (h : m.Waits x) {k : Nat}
    (hstate : m'.state = m.state.countDown k) : m'.Waits x := by
  rw [Waits, hstate]
  exact h

/-- A wait is not taken for a jump. -/
theorem isLooping_step (h : m.Waits x) (i : StepInputs) : (m.step i).isLooping = false := by
  rw [← Bool.not_eq_true, isLooping_iff, step_last, h.next_eq]
  rintro ⟨hjump, -⟩
  exact Opcode.noConfusion hjump

theorem step_state_eq (h : m.Waits x) (i : StepInputs) :
    (m.step i).state =
      ((m.state.countDown (m.ticksAt i.now i.frozen)).awaitKey x i.keys).advance := by
  rw [step_state, h.next_eq]
  rfl

/-- While no key is held, nothing but the timers changes. -/
theorem run (h : m.Waits x) {is : List StepInputs} (hnone : ∀ i ∈ is, Keypad.NoneHeld i.keys) :
    ∃ k, (m.run is).state = m.state.countDown k := by
  induction is generalizing m with
  | nil => exact ⟨0, m.state.countDown_zero.symm⟩
  | cons i is ih =>
    obtain ⟨hi, his⟩ := List.forall_mem_cons.1 hnone
    have hstep : (m.step i).state = m.state.countDown (m.ticksAt i.now i.frozen) := by
      rw [h.step_state_eq, State.advance_awaitKey_of_noneHeld _ _ hi]
    -- The same wait is the next instruction again, and the ticks of the steps add up.
    obtain ⟨k, hrun⟩ := ih (h.of_countDown hstep) his
    refine ⟨m.ticksAt i.now i.frozen + k, ?_⟩
    rw [run_cons, hrun, hstep, State.countDown_countDown]

theorem waits_run (h : m.Waits x) {is : List StepInputs}
    (hnone : ∀ i ∈ is, Keypad.NoneHeld i.keys) : (m.run is).Waits x := by
  obtain ⟨k, hrun⟩ := h.run hnone
  exact h.of_countDown hrun

/-- The first held key ends the wait. -/
theorem step_of_first (h : m.Waits x) {i : StepInputs} {slot : Nibble}
    (hfirst : Keypad.First i.keys slot) :
    (m.step i).state =
      { (m.state.countDown (m.ticksAt i.now i.frozen)).setReg x (Keypad.layout.get slot) with
        pc := m.state.pc + 2 } := by
  rw [h.step_state_eq, State.awaitKey_of_first _ _ hfirst]
  rfl

end Waits

/-- The machine waits for a key and is not taken for a looping one. -/
structure AtWait (m : Machine) (x : Nibble) : Prop where
  waits : m.Waits x
  isLooping : m.isLooping = false

/-- A program that comes to a wait has not been taken for a loop before. -/
theorem Waits.atWait_of_reachable {m : Machine} {x : Nibble} (h : m.Waits x)
    (hreachable : m.Reachable) : m.AtWait x := by
  refine ⟨h, Bool.eq_false_iff.2 fun hloop => ?_⟩
  have hjump := (hreachable.settled hloop).jumps.1
  rw [h.next_eq] at hjump
  exact Opcode.noConfusion hjump

/-- Whatever was before the wait, one step of it is enough. -/
theorem Waits.atWait_run {m : Machine} {x : Nibble} (h : m.Waits x) {is : List StepInputs}
    (hnone : ∀ i ∈ is, Keypad.NoneHeld i.keys) (hne : is ≠ []) : (m.run is).AtWait x := by
  refine ⟨h.waits_run hnone, ?_⟩
  rcases List.eq_nil_or_concat is with rfl | ⟨before, i, rfl⟩
  · exact absurd rfl hne
  · have hbefore : ∀ j ∈ before, Keypad.NoneHeld j.keys := fun j hj => hnone j (by simp [hj])
    rw [List.concat_eq_append, run_append, run_cons, run_nil]
    exact (h.waits_run hbefore).isLooping_step i

theorem AtWait.run {m : Machine} {x : Nibble} (h : m.AtWait x) {is : List StepInputs}
    (hnone : ∀ i ∈ is, Keypad.NoneHeld i.keys) : (m.run is).AtWait x := by
  cases is with
  | nil => exact h
  | cons i is => exact h.waits.atWait_run hnone (List.cons_ne_nil i is)

end Machine

/-! ## Runners -/

theorem keys_of_mem_stepInputs {σ : Type} [Host (StateM σ)] {keys : HeldKeys} {frozen : Bool}
    {n : Nat} {host : σ} {i : StepInputs}
    (h : i ∈ ((stepInputs keys frozen n : StateM σ _).run host).1) : i.keys = keys := by
  induction n generalizing host with
  | zero => exact absurd h List.not_mem_nil
  | succ n ih =>
    rcases List.mem_cons.1 h with rfl | h
    · rfl
    · exact ih h

/-- A call with no key held. -/
def Runner.Call.HoldsNoKey : Runner.Call → Prop
  | .start | .stop => True
  | .step keys | .update _ keys => Keypad.NoneHeld keys

section

variable {α σ : Type} [PaceNumber α] [Host (StateM σ)] {x : Nibble}

namespace Driven

theorem noneHeld_of_mem_callInputs {d : Driven α} {c : Runner.Call × σ} (hc : c.1.HoldsNoKey) :
    ∀ i ∈ d.callInputs c, Keypad.NoneHeld i.keys := by
  obtain ⟨c, host⟩ := c
  intro i hi
  cases c with
  | start | stop => exact absurd hi List.not_mem_nil
  | step keys =>
    change i ∈ d.runner.singleInputs keys host at hi
    rw [Runner.singleInputs] at hi
    split at hi
    · exact absurd hi List.not_mem_nil
    · rw [keys_of_mem_stepInputs hi]
      exact hc
  | update span keys =>
    rw [keys_of_mem_stepInputs hi]
    exact hc

/-- Calls without a key do not end the wait. -/
theorem atWait_after {d : Driven α} (h : d.machine.AtWait x) {calls : List (Runner.Call × σ)}
    (hcalls : ∀ c ∈ calls, c.1.HoldsNoKey) : (d.after calls).machine.AtWait x := by
  induction calls generalizing d with
  | nil => exact h
  | cons c calls ih =>
    obtain ⟨hc, hrest⟩ := List.forall_mem_cons.1 hcalls
    have hanswer : (d.answer c).2.machine.AtWait x := by
      rw [machine_answer]
      exact h.run (noneHeld_of_mem_callInputs hc)
    rw [after_cons]
    exact ih hanswer hrest

/-- An update changes the status for a looping machine alone. -/
theorem status_update_of_not_looping {d : Driven α} (h : d.machine.isLooping = false) (span : Nat)
    (keys : HeldKeys) (host : σ) :
    (d.answer (.update span keys, host)).2.runner.status = d.runner.status := by
  rcases d.gives_or_status_eq (.update span keys, host) with hgives | hkept
  · generalize (d.answer (.update span keys, host)).2.runner.status = status at hgives ⊢
    cases hgives with
    | update _ _ _ _ hloop => exact absurd (h.symm.trans hloop) Bool.false_ne_true
  · exact hkept

end Driven

namespace Run

/-- A run whose runner is running, and whose machine is at its wait. -/
structure Waiting (run : Run α) (x : Nibble) : Prop where
  isRunning : run.runner.isRunning = true
  atWait : run.machine.AtWait x

omit [PaceNumber α] in
theorem Waiting.not_detects {run : Run α} (h : run.Waiting x) : ¬ run.Detects :=
  fun hdetects => absurd (h.atWait.isLooping.symm.trans hdetects.2) Bool.false_ne_true

/-- A frame without a key leaves the runner running and the machine at its wait. -/
theorem Waiting.frameOn {run : Run α} (h : run.Waiting x) {keys : HeldKeys}
    (hnone : Keypad.NoneHeld keys) (host : σ) : (run.frameOn keys host).1.Waiting x := by
  refine ⟨isRunning_frameOn keys host h.isRunning h.not_detects, ?_⟩
  rw [frameOn_eq]
  refine h.atWait.run fun i hi => ?_
  rw [keys_of_mem_stepInputs hi]
  exact hnone

theorem Waiting.framesOn {run : Run α} (h : run.Waiting x) {keys : HeldKeys}
    (hnone : Keypad.NoneHeld keys) (n : Nat) (host : σ) :
    (run.framesOn (fun _ => keys) n host).1.Waiting x := by
  induction n with
  | zero => exact h
  | succ n ih => exact ih.frameOn hnone _

end Run

namespace SharedRun

theorem noneHeld_foldl_apply {events : List ControlEvent}
    (hevents : ∀ keys, .hold keys ∈ events → Keypad.NoneHeld keys) {c : Controls}
    (hc : Keypad.NoneHeld c.keys) : Keypad.NoneHeld (events.foldl Controls.apply c).keys := by
  induction events generalizing c with
  | nil => exact hc
  | cons e events ih =>
    refine ih (fun keys hkeys => hevents keys (List.mem_cons_of_mem e hkeys)) ?_
    cases e with
    | hold keys => exact hevents keys List.mem_cons_self
    | stop | poisonStop | poisonKeys | poisonMachine => exact hc

/-- Under outside control it is the same, as long as nobody holds a key. -/
theorem waiting_advanceOn {schedule : Nat → List ControlEvent}
    (hschedule : ∀ n keys, .hold keys ∈ schedule n → Keypad.NoneHeld keys) {s : SharedRun α}
    (h : s.run.Waiting x) (hkeys : Keypad.NoneHeld s.controls.keys) (limit : Nat) (host : σ) :
    (s.advanceOn schedule limit host).1.run.Waiting x := by
  induction limit generalizing s host with
  | zero => exact h
  | succ limit ih =>
    by_cases hover : s.Over schedule
    · rw [(advanceOn_of_over hover limit host).2]
      exact h
    · have hnext : Keypad.NoneHeld (s.nextControls schedule).keys :=
        noneHeld_foldl_apply (hschedule _) hkeys
      rw [advanceOn_succ hover]
      exact ih (h.frameOn hnext host) hnext _

end SharedRun

namespace Runner

variable {m : Machine} (h : m.AtWait x) (r : Runner α)

include h

omit [PaceNumber α] in
/-- A run that begins at a wait waits. -/
theorem waiting_begin (now : Nat) : Run.Waiting (⟨r.start, m, now, 0⟩ : Run α) x := ⟨rfl, h⟩

/-- A run at a wait makes all its frames, since in none of them the machine is looping. -/
theorem run_of_atWait (limit : Nat) (host : σ) :
    let run := ((r.run m Keypad.none limit : StateM σ _).run host).1
    run.frames = limit ∧ run.runner.status = .running := by
  let now := (Host.now : StateM σ Nat).run host
  have hbegun := waiting_begin h r now.1
  have hquiet : ∀ k < limit,
      ¬ (Run.framesOn ⟨r.start, m, now.1, 0⟩ (fun _ => Keypad.none) k now.2).1.Detects :=
    fun k _ => (hbegun.framesOn Keypad.noneHeld_none k now.2).not_detects
  have hend := Run.advanceOn_of_not_detects hbegun.isRunning hquiet
  exact ⟨hend.1.trans (Nat.zero_add limit), hend.2⟩

/-- Under outside control the runner does not halt either. -/
theorem runShared_of_atWait {c : Controls} {schedule : Nat → List ControlEvent}
    (hkeys : Keypad.NoneHeld c.keys)
    (hschedule : ∀ n keys, .hold keys ∈ schedule n → Keypad.NoneHeld keys) (limit : Nat)
    (host : σ) :
    ((r.runShared m c schedule limit : StateM σ _).run host).1.run.runner.status = .running := by
  let now := (Host.now : StateM σ Nat).run host
  have hend := SharedRun.waiting_advanceOn (s := ⟨⟨r.start, m, now.1, 0⟩, c, 0, false⟩)
    hschedule (waiting_begin h r now.1) hkeys limit now.2
  exact of_decide_eq_true hend.isRunning

end Runner

end

/-- A wait for a key blocks exactly until a key is held. Take any machine whose next word is `Fx0A`,
wherever that stands, and let it make steps with no key held, at any readings of the clock and with
the timers frozen or not. Then the timers may have fallen and the rest of the state is as before.
The first step with keys held stores the value of the lowest held slot in the register `x` and moves
the program counter past the wait; it changes nothing else but the timers.

From the first step of the wait on, and from its start if a program has come to it, the machine is
not taken for a looping one. So no runner halts on it: after any calls with no key held, an update
leaves the status as it was; and a run makes all its frames with the runner running, on the caller's
own time as well as under outside control, unless somebody else holds a key or ends it. -/
theorem wait_blocks_until_key {α σ : Type} [PaceNumber α] [Host (StateM σ)] {m : Machine}
    {x : Nibble}
    (hword : m.state.wordAt m.state.pc =
      wordOfBytes (byteOfNibbles 0xF x) (byteOfNibbles 0x0 0xA))
    {is : List StepInputs} (hnone : ∀ i ∈ is, Keypad.NoneHeld i.keys) :
    let waiting := m.run is
    (∃ k, waiting.state = m.state.countDown k) ∧ waiting.rom = m.rom ∧
      (∀ j : StepInputs, (∃ q, j.keys.get q = true) → ∃ slot, Keypad.First j.keys slot ∧
        (∃ k, (waiting.step j).state =
          { (m.state.countDown k).setReg x (Keypad.layout.get slot) with
            pc := m.state.pc + 2 }) ∧
        (waiting.step j).rom = m.rom) ∧
      (is ≠ [] ∨ m.Reachable →
        waiting.isLooping = false ∧
        (∀ (r : Runner α) (calls : List (Runner.Call × σ)), (∀ c ∈ calls, c.1.HoldsNoKey) →
          let left := Driven.after ⟨r, waiting⟩ calls
          left.machine.isLooping = false ∧ ∀ span keys (host : σ),
            (left.answer (.update span keys, host)).2.runner.status = left.runner.status) ∧
        (∀ (r : Runner α) (limit : Nat) (host : σ),
          let run := ((r.run waiting Keypad.none limit : StateM σ _).run host).1
          run.frames = limit ∧ run.runner.status = .running) ∧
        ∀ (r : Runner α) (c : Controls) (schedule : Nat → List ControlEvent),
          Keypad.NoneHeld c.keys → (∀ n keys, .hold keys ∈ schedule n → Keypad.NoneHeld keys) →
            ∀ (limit : Nat) (host : σ),
              ((r.runShared waiting c schedule limit : StateM σ _).run host).1.run.runner.status =
                .running) := by
  intro waiting
  have h : m.Waits x := hword
  obtain ⟨k, hstate⟩ := h.run hnone
  refine ⟨⟨k, hstate⟩, m.rom_run is, fun j hheld => ?_, fun hreason => ?_⟩
  · obtain ⟨slot, hfirst⟩ := Keypad.exists_first hheld
    have hstep := (h.waits_run hnone).step_of_first hfirst
    rw [hstate, State.countDown_countDown] at hstep
    exact ⟨slot, hfirst, ⟨_, hstep⟩, ((m.run is).rom_step j).trans (m.rom_run is)⟩
  · have hwait : waiting.AtWait x := by
      rcases hreason with hne | hreachable
      · exact h.atWait_run hnone hne
      · exact (h.atWait_of_reachable hreachable).run hnone
    refine ⟨hwait.isLooping, fun r calls hcalls => ?_, Runner.run_of_atWait hwait,
      fun r _ _ hkeys hschedule => Runner.runShared_of_atWait hwait r hkeys hschedule⟩
    have hleft := Driven.atWait_after (d := ⟨r, waiting⟩) hwait hcalls
    exact ⟨hleft.isLooping, Driven.status_update_of_not_looping hleft.isLooping⟩

/-- A machine whose next instruction, a wait for the register 5, is in the last cell of memory and in
the first one, at the largest address. -/
def Machine.waitsAcrossTheEnd : Machine :=
  { Machine.new with
    state :=
      { State.initial with
        pc := 0xFFFF
        delay := 10
        memory := Memory.blank.writeBytes 0xFFFF [0xF5, 0x0A] } }

/-- Two steps with no key held, of which the second lets the timers fall by three ticks. -/
def twoIdleSteps : List StepInputs :=
  [⟨⟨Keypad.none, 0⟩, 0, true⟩, ⟨⟨Keypad.none, 0⟩, 50000000, false⟩]

/-- The machine waits for these steps and halts no runner. Then the keys in the slots 13 and 7 are
held, and it gets that of the lower slot, the key D. -/
theorem waitsAcrossTheEnd_gets_key :
    let keys := Keypad.ofSlots [13, 7]
    let run := ((Runner.run (.ofSettings .default : Runner Rat)
      (Machine.waitsAcrossTheEnd.run twoIdleSteps) Keypad.none 3 : StateM Tape _).run
        ⟨0, fun _ => 1, fun _ => 0⟩).1
    Machine.waitsAcrossTheEnd.Waits 0x5 ∧ (∀ i ∈ twoIdleSteps, Keypad.NoneHeld i.keys) ∧
      (∃ k, (Machine.waitsAcrossTheEnd.run twoIdleSteps).state =
        Machine.waitsAcrossTheEnd.state.countDown k) ∧
      (Machine.waitsAcrossTheEnd.run twoIdleSteps).state.delay = 7 ∧
      (Machine.waitsAcrossTheEnd.run twoIdleSteps).isLooping = false ∧
      (run.frames = 3 ∧ run.runner.status = .running) ∧ (∃ q, keys.get q = true) ∧
      ∃ k, ((Machine.waitsAcrossTheEnd.run twoIdleSteps).step ⟨⟨keys, 0⟩, 60000000, true⟩).state =
        { (Machine.waitsAcrossTheEnd.state.countDown k).setReg 0x5 0xD with pc := 1 } := by
  have hword : Machine.waitsAcrossTheEnd.Waits 0x5 := by decide +kernel
  have hnone : ∀ i ∈ twoIdleSteps, Keypad.NoneHeld i.keys := by
    intro i hi
    simp only [twoIdleSteps, List.mem_cons, List.not_mem_nil, or_false] at hi
    rcases hi with rfl | rfl <;> exact Keypad.noneHeld_none
  have hheld : ∃ q, (Keypad.ofSlots [13, 7]).get q = true := ⟨13, by decide⟩
  have hlowest : ∀ slot, Keypad.First (Keypad.ofSlots [13, 7]) slot → slot = 7 := by decide
  obtain ⟨hblocked, -, hkey, hrunner⟩ := @wait_blocks_until_key Rat Tape _ _ _ _ hword _ hnone
  obtain ⟨slot, hfirst, ⟨k, hstep⟩, -⟩ := hkey ⟨⟨_, 0⟩, 60000000, true⟩ hheld
  obtain ⟨hloop, -, hrun, -⟩ := hrunner (.inl (List.cons_ne_nil _ _))
  obtain rfl := hlowest slot hfirst
  have hvalue : Keypad.layout.get 7 = 0xD := by decide
  have hpc : Machine.waitsAcrossTheEnd.state.pc + 2 = 1 := by decide
  rw [hvalue, hpc] at hstep
  exact ⟨hword, hnone, hblocked, by decide +kernel, hloop,
    hrun (.ofSettings .default) 3 ⟨0, fun _ => 1, fun _ => 0⟩, hheld, k, hstep⟩

end Chip8
