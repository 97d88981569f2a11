import Chip8.Proofs.Frame
import Chip8.Proofs.Operation

/-!
# Time is seen by one operation

The two timers and the clock are the only places where the passing of time leaves a mark. Of all
operations only the one that reads the delay timer takes a timer into account, and fetching takes
none, so two machines that differ in their timers and clocks go the same way until one of them
reads the delay timer (`State.EqButTimers.execute`, `Machine.run_eqButTimers`). How their steps are
divided, when they are made and which of them freeze the timers does not matter either.

The sound timer is not read at all. To forget it (`Machine.muted`) before a step or after the step
comes to the same, so it is only ever seen in itself (`Machine.muted_run`), whatever is executed.
-/

set_option autoImplicit false

namespace Chip8

namespace State

/-! ## States up to their timers -/

/-- Two states agree in everything but their timers. -/
structure EqButTimers (s t : State) : Prop where
  v : s.v = t.v
  i : s.i = t.i
  pc : s.pc = t.pc
  sp : s.sp = t.sp
  memory : s.memory = t.memory
  stack : s.stack = t.stack
  screen : s.screen = t.screen

/-- The state with other timers. -/
def withTimers (s : State) (delay sound : UInt8) : State :=
  { s with delay := delay, sound := sound }

theorem eqButTimers_iff {s t : State} : s.EqButTimers t ↔ t = s.withTimers t.delay t.sound := by
  constructor
  · intro h
    obtain ⟨hv, hi, hpc, hsp, hmemory, hstack, hscreen⟩ := h
    rw [withTimers, hv, hi, hpc, hsp, hmemory, hstack, hscreen]
  · intro h
    rw [h]
    exact ⟨rfl, rfl, rfl, rfl, rfl, rfl, rfl⟩

section

variable (s : State) (delay sound : UInt8)

theorem drawSprite_withTimers (x y : Nibble) (rows : List UInt8) :
    (s.withTimers delay sound).drawSprite x y rows =
      (s.drawSprite x y rows).withTimers delay sound := by
  have hplot : ∀ (s : State) dot,
      plot x y (s.withTimers delay sound) dot = (plot x y s dot).withTimers delay sound :=
    fun _ _ => rfl
  show (Sprite.dots rows).foldl (plot x y) ((s.setReg flag 0).withTimers delay sound) = _
  exact List.foldl_hom (State.withTimers · delay sound) hplot

/-- Other timers make no difference to an instruction, except that it may read the delay timer. -/
theorem execute_withTimers (inputs : Inputs) {instruction : Instruction}
    (h : instruction.opcode = .readDelay → s.delay = delay) :
    (s.execute inputs instruction).EqButTimers
      ((s.withTimers delay sound).execute inputs instruction) := by
  have hskip : ∀ c, (s.skipIf c).EqButTimers ((s.withTimers delay sound).skipIf c) := by
    intro c
    cases c <;> exact eqButTimers_iff.2 rfl
  obtain ⟨op, o⟩ := instruction
  cases op with
  | skipIfByte | skipUnlessByte | skipIfSame | skipUnlessSame | skipIfHeld | skipUnlessHeld =>
    exact hskip _
  | draw =>
    show (s.drawSprite o.x o.y (s.memory.readBytes s.i o.n.val)).EqButTimers
      ((s.withTimers delay sound).drawSprite o.x o.y (s.memory.readBytes s.i o.n.val))
    rw [drawSprite_withTimers]
    exact eqButTimers_iff.2 rfl
  | readDelay =>
    -- The one place where a timer gets into a register.
    rw [← h rfl]
    exact eqButTimers_iff.2 rfl
  | awaitKey =>
    show (s.awaitKey o.x inputs.keys).EqButTimers
      ((s.withTimers delay sound).awaitKey o.x inputs.keys)
    unfold awaitKey
    split <;> exact eqButTimers_iff.2 rfl
  | loadRegisters =>
    show (s.loadRegisters o.x).EqButTimers ((s.withTimers delay sound).loadRegisters o.x)
    rw [loadRegisters, loadRegisters]
    exact eqButTimers_iff.2 rfl
  | _ => exact eqButTimers_iff.2 rfl

end

namespace EqButTimers

variable {s t : State} (h : s.EqButTimers t)

include h

theorem countDown (j k : Nat) : (s.countDown j).EqButTimers (t.countDown k) := { h with }

theorem advance : s.advance.EqButTimers t.advance := { h with pc := congrArg (· + 2) h.pc }

theorem instructionAt_eq : s.instructionAt s.pc = t.instructionAt t.pc := by
  rw [instructionAt, wordAt, h.memory, h.pc]
  rfl

theorem execute (inputs : Inputs) {instruction : Instruction}
    (hread : instruction.opcode = .readDelay → s.delay = t.delay) :
    (s.execute inputs instruction).EqButTimers (t.execute inputs instruction) := by
  rw [eqButTimers_iff.1 h]
  exact s.execute_withTimers _ _ inputs hread

end EqButTimers

/-! ## The sound timer -/

/-- The state without what its sound timer says. -/
def muted (s : State) : State := { s with sound := 0 }

theorem muted_eq_iff {s t : State} :
    s.muted = t.muted ↔ s.EqButTimers t ∧ s.delay = t.delay := by
  constructor
  · intro h
    rw [muted, muted, mk.injEq] at h
    obtain ⟨hv, hi, hpc, hsp, hdelay, -, hmemory, hstack, hscreen⟩ := h
    exact ⟨⟨hv, hi, hpc, hsp, hmemory, hstack, hscreen⟩, hdelay⟩
  · rintro ⟨h, hdelay⟩
    rw [eqButTimers_iff.1 h, ← hdelay]
    rfl

section

variable (s : State)

/-- A timer that has run out stays at zero. -/
theorem muted_countDown (ticks : Nat) : s.muted.countDown ticks = (s.countDown ticks).muted := by
  have hcount : s.muted.countDown ticks =
      { s.countDown ticks with sound := UInt8.ofNat (0 - ticks) } := rfl
  rw [hcount, Nat.zero_sub]
  rfl

/-- The delay timer after an instruction does not depend on the sound timer. -/
theorem delay_execute_muted (inputs : Inputs) (instruction : Instruction) :
    (s.muted.execute inputs instruction).delay = (s.execute inputs instruction).delay := by
  obtain ⟨op, o⟩ := instruction
  by_cases hop : op = .writeDelay
  · rw [hop]
    rfl
  · rw [(s.execute_writesOnly inputs ⟨op, o⟩).delay hop,
      (s.muted.execute_writesOnly inputs ⟨op, o⟩).delay hop]
    rfl

theorem muted_execute (inputs : Inputs) (instruction : Instruction) :
    (s.muted.execute inputs instruction).muted = (s.execute inputs instruction).muted := by
  have h : s.muted.EqButTimers s := ⟨rfl, rfl, rfl, rfl, rfl, rfl, rfl⟩
  exact muted_eq_iff.2 ⟨h.execute inputs fun _ => rfl, s.delay_execute_muted inputs instruction⟩

end

end State

namespace Machine

/-! ## Runs up to timers and clock -/

theorem next_eq_of_eqButTimers {a b : Machine} (h : a.state.EqButTimers b.state) :
    a.next = b.next := h.instructionAt_eq

/-- A step that does not read the delay timer does the same to both machines, at whatever time. -/
theorem step_eqButTimers {a b : Machine} (h : a.state.EqButTimers b.state) {i j : StepInputs}
    (hinputs : i.toInputs = j.toInputs) (hread : a.next.opcode ≠ .readDelay) :
    (a.step i).state.EqButTimers (b.step j).state := by
  rw [step_state, step_state, ← hinputs, ← next_eq_of_eqButTimers h]
  exact ((h.countDown _ _).execute i.toInputs fun hop => absurd hop hread).advance

theorem run_eqButTimers {a b : Machine} (h : a.state.EqButTimers b.state) {is js : List StepInputs}
    (hinputs : is.map (·.toInputs) = js.map (·.toInputs))
    (hread : ∀ i ∈ a.trace is, i.opcode ≠ .readDelay) :
    a.trace is = b.trace js ∧ (a.run is).state.EqButTimers (b.run js).state := by
  induction is generalizing a b js with
  | nil =>
    obtain rfl : js = [] := List.map_eq_nil_iff.1 hinputs.symm
    exact ⟨rfl, h⟩
  | cons i is ih =>
    obtain ⟨j, js, rfl, hfirst, hrest⟩ := List.map_eq_cons_iff.1 hinputs.symm
    rw [trace, step_last, List.forall_mem_cons] at hread
    -- Memory and program counter agree, so the second machine executes what the first executes, and
    -- nothing has to be assumed of it.
    have hstep := step_eqButTimers h hfirst.symm hread.1
    obtain ⟨htrace, hrun⟩ := ih hstep hrest.symm hread.2
    rw [trace, trace, step_last, step_last, next_eq_of_eqButTimers h, htrace]
    exact ⟨rfl, hrun⟩

/-! ## Runs up to the sound timer -/

/-- The machine without what its sound timer says. -/
def muted (m : Machine) : Machine := { m with state := m.state.muted }

section

variable (m : Machine)

theorem muted_decay (span : Nat) : m.muted.decay span = (m.decay span).muted := by
  show { m.decay span with state := m.state.muted.countDown (m.clock.ticks span) } = _
  rw [State.muted_countDown]
  rfl

theorem muted_readClock (now : Nat) (frozen : Bool) :
    m.muted.readClock now frozen = (m.readClock now frozen).muted := by
  cases frozen with
  | true => rfl
  | false => exact muted_decay { m with clock.lastReading := some now } (m.clock.elapsed now)

theorem muted_executeNext (inputs : Inputs) :
    (m.muted.executeNext inputs).muted = (m.executeNext inputs).muted := by
  show { m.executeNext inputs with
    state := (m.state.muted.execute inputs m.next).muted.advance } = _
  rw [State.muted_execute]
  rfl

theorem muted_step (i : StepInputs) : (m.muted.step i).muted = (m.step i).muted := by
  rw [step, muted_readClock, muted_executeNext]
  rfl

end

theorem muted_run (m : Machine) (is : List StepInputs) :
    (m.muted.run is).muted = (m.run is).muted := by
  induction is generalizing m with
  | nil => rfl
  | cons i is ih =>
    -- What sound the first step brings about is forgotten again before the others.
    rw [run_cons, run_cons, ← ih (m.muted.step i), muted_step, ih]

theorem trace_muted (m : Machine) (is : List StepInputs) : m.muted.trace is = m.trace is := by
  induction is generalizing m with
  | nil => rfl
  | cons i is ih =>
    have hnext : m.muted.next = m.next := rfl
    rw [trace, trace, step_last, step_last, hnext, ← ih (m.muted.step i), muted_step, ih]

section

variable {a b : Machine} (h : a.muted = b.muted)

include h

theorem muted_run_congr (is : List StepInputs) : (a.run is).muted = (b.run is).muted := by
  rw [← a.muted_run, h, b.muted_run]

theorem trace_congr_of_muted (is : List StepInputs) : a.trace is = b.trace is := by
  rw [← a.trace_muted, h, b.trace_muted]

theorem isLooping_congr_of_muted : a.isLooping = b.isLooping := by
  show a.muted.isLooping = b.muted.isLooping
  rw [h]

theorem muted_decay_congr (span : Nat) : (a.decay span).muted = (b.decay span).muted := by
  rw [← a.muted_decay, h, b.muted_decay]

variable {M : Type → Type} [Monad M] [LawfulMonad M] [Host M]

theorem muted_cycle_congr (keys : HeldKeys) (frozen : Bool) (n : Nat) :
    muted <$> (a.cycle keys frozen n : M Machine) =
      muted <$> (b.cycle keys frozen n : M Machine) := by
  simp only [cycle_eq_map_run, Functor.map_map, muted_run_congr h]

/-- A runner's single step has the same outcome but for the sound timer. -/
theorem muted_runnerStep_congr {α : Type} (r : Runner α) (keys : HeldKeys) :
    Prod.map id muted <$> (r.step a keys : M (Runner α × Machine)) =
      Prod.map id muted <$> (r.step b keys : M (Runner α × Machine)) := by
  unfold Runner.step
  split
  · simp only [map_pure, Prod.map_apply, id_eq, h]
  · simp only [cycle_eq_map_run, map_eq_pure_bind, bind_assoc, pure_bind, Prod.map_apply, id_eq,
      muted_run_congr h]

/-- A runner decides the same for a frame, with the same outcome but for the sound timer. -/
theorem muted_update_congr {α : Type} [PaceNumber α] (r : Runner α) (span : Nat)
    (keys : HeldKeys) :
    Prod.map id (Prod.map id muted) <$> (r.update a span keys : M (UInt32 × Runner α × Machine)) =
      Prod.map id (Prod.map id muted) <$>
        (r.update b span keys : M (UInt32 × Runner α × Machine)) := by
  simp only [Runner.update_eq_map, Functor.map_map, Prod.map_apply, id_eq,
    isLooping_congr_of_muted h, muted_run_congr h]

end

end Machine

/-- Execution does not depend on time, except that the delay timer can be read. Take any two
machines that agree but for their timers and clocks, and let them make the same number of steps
with the same keys and the same random byte at each place. The readings of the clock, the steps that
freeze the timers and the way in which the steps are divided into single steps, cycles and frames
may differ. If the first machine does not read its delay timer, both execute the same instructions
and agree after every step.

The sound timer shows in nothing else, whatever is executed: two machines that agree but for it stay
that way over all steps and spans of time, and on every host their cycles and frames go the same
way. -/
theorem execution_ignores_time :
    (∀ {a b a' b' : Machine} {is js : List StepInputs}, a.Makes is a' → b.Makes js b' →
        a.state.EqButTimers b.state → is.map (·.toInputs) = js.map (·.toInputs) →
        (∀ i ∈ a.trace is, i.opcode ≠ .readDelay) →
        a.trace is = b.trace js ∧
          (∀ k, (a.run (is.take k)).state.EqButTimers (b.run (js.take k)).state) ∧
          a'.state.EqButTimers b'.state) ∧
      ∀ {a b : Machine}, a.muted = b.muted →
        (∀ is, a.trace is = b.trace is ∧
          ∀ k, (a.run (is.take k)).muted = (b.run (is.take k)).muted) ∧
        (∀ span, (a.decay span).muted = (b.decay span).muted) ∧
        ∀ (M : Type → Type) [Monad M] [LawfulMonad M] [Host M] (keys : HeldKeys),
          (∀ frozen n, Machine.muted <$> (a.cycle keys frozen n : M _) =
            Machine.muted <$> (b.cycle keys frozen n : M _)) ∧
          ∀ (α : Type) [PaceNumber α] (r : Runner α),
            Prod.map id Machine.muted <$> (r.step a keys : M _) =
                Prod.map id Machine.muted <$> (r.step b keys : M _) ∧
              ∀ span, Prod.map id (Prod.map id Machine.muted) <$> (r.update a span keys : M _) =
                Prod.map id (Prod.map id Machine.muted) <$> (r.update b span keys : M _) := by
  constructor
  · -- Both machines make a run, however their steps are divided.
    intro a b a' b' is js ha hb hstates hinputs hread
    obtain ⟨htrace, hrun⟩ := Machine.run_eqButTimers hstates hinputs hread
    refine ⟨htrace, fun k => ?_, ?_⟩
    · have hinputsk : (is.take k).map (·.toInputs) = (js.take k).map (·.toInputs) := by
        rw [List.map_take, List.map_take, hinputs]
      refine (Machine.run_eqButTimers hstates hinputsk fun i hi => hread i ?_).2
      rw [← Machine.take_trace] at hi
      exact List.mem_of_mem_take hi
    · rw [ha.eq_run, hb.eq_run]
      exact hrun
  · intro a b h
    exact ⟨fun is => ⟨Machine.trace_congr_of_muted h is,
        fun k => Machine.muted_run_congr h (is.take k)⟩,
      Machine.muted_decay_congr h,
      fun M _ _ _ keys => ⟨Machine.muted_cycle_congr h keys,
        fun α _ r => ⟨Machine.muted_runnerStep_congr h r keys,
          fun span => Machine.muted_update_congr h r span keys⟩⟩⟩

/-- A machine that sets both timers to a random value, and then reads the delay timer. -/
def chirping : Machine :=
  (Machine.new.loadProgram [0xC0, 0xFF, 0xF0, 0x15, 0xF0, 0x18, 0xF1, 0x07]).2

/-- The same machine with timers at work and most of a tick to carry. -/
def chirpingLate : Machine :=
  { chirping with
    state.delay := 200
    state.sound := 9
    clock := ⟨some 5000000000, 999999999⟩ }

theorem chirpingLate_agrees :
    let host := fun wait => Tape.mk 0 (fun _ => wait) (fun _ => 7)
    let late := chirpingLate.step ⟨⟨Keypad.none, 7⟩, 6000000000, false⟩
    let later := late.cycleOn Keypad.none true 1 (host 30000000)
    let runner : Runner Rat :=
      .start (.ofSettings { Settings.default with speed := 100, stopTimers := false })
    let latest := runner.updateOn later 10000000 Keypad.none (host 90000000)
    let punctual := chirping.cycleOn Keypad.none false 3 (host 0)
    (punctual.state.EqButTimers latest.state ∧ punctual.state.delay = 7 ∧
        latest.state.delay = 3) ∧
      let sounding : Machine := { chirping with state.sound := 9 }
      let is := List.replicate 4 ⟨⟨Keypad.none, 7⟩, 0, false⟩
      (∃ i ∈ chirping.trace is, i.opcode = .readDelay) ∧ sounding.trace is = chirping.trace is := by
  intro host late later runner latest punctual
  have hframe : (runner.frame 10000000 later.isLooping).1 = ⟨1, false⟩ := by decide +kernel
  have hpunctual : chirping.Makes _ punctual := .cycle Keypad.none false 3 (host 0) .none
  have hlatest : chirpingLate.Makes _ latest :=
    .frame runner 10000000 Keypad.none (host 90000000)
      (.cycle Keypad.none true 1 (host 30000000) (.step _ .none))
  have hstates : chirping.state.EqButTimers chirpingLate.state :=
    ⟨rfl, rfl, rfl, rfl, rfl, rfl, rfl⟩
  obtain ⟨-, -, hagree⟩ := execution_ignores_time.1 hpunctual hlatest hstates
    (by rw [Runner.frameInputs, hframe]; rfl) (by decide +kernel)
  refine ⟨⟨hagree, by decide +kernel, by decide +kernel⟩, ?_⟩
  intro sounding is
  have hmuted : sounding.muted = chirping.muted := rfl
  exact ⟨by decide +kernel, ((execution_ignores_time.2 hmuted).1 is).1⟩

end Chip8
