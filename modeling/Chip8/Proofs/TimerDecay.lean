import Chip8.Proofs.Frame
import Chip8.Proofs.Operation

/-!
# Timers count the time that is not frozen

A machine's timers fall by the time between two readings of its clock, unless a step freezes them,
and by spans of time told to it directly. Each time whole ticks are taken from what has added up and
the rest is carried on. No part of a tick is lost in this or counted twice (`TickClock.ticks_add`),
so the timers and the rest carried are known from the whole time alone, however it was divided
(`timers_after_eq_total`).
-/

set_option autoImplicit false

namespace Chip8

/-! ## Ticks of divided spans -/

namespace TickClock

variable (c : TickClock)

/-- What is due after two spans: the ticks of the first one, and what is due after the second one
with the rest of the first. -/
theorem due_add (a b : Nat) :
    c.due (a + b) = nanosPerSecond * c.ticks a + (c.settle a).due b := by
  have hsplit : nanosPerSecond * c.ticks a + c.due a % nanosPerSecond = c.due a :=
    Nat.div_add_mod (c.due a) nanosPerSecond
  calc c.due (a + b) = c.due a + b * timerRate := by rw [due, due, Nat.add_mul, Nat.add_assoc]
    _ = nanosPerSecond * c.ticks a + c.due a % nanosPerSecond + b * timerRate := by rw [hsplit]
    _ = nanosPerSecond * c.ticks a + (c.settle a).due b := Nat.add_assoc ..

/-- The rest that a span leaves makes ticks together with the next span. -/
theorem ticks_add (a b : Nat) : c.ticks (a + b) = c.ticks a + (c.settle a).ticks b := by
  rw [ticks, due_add, Nat.mul_add_div (by decide)]
  rfl

theorem settle_settle (a b : Nat) : (c.settle a).settle b = c.settle (a + b) := by
  have hdue : c.due (a + b) % nanosPerSecond = (c.settle a).due b % nanosPerSecond := by
    rw [due_add, Nat.mul_add_mod]
  simp only [settle] at hdue ⊢
  simp only [hdue]

end TickClock

/-! ## The two timers -/

/-- The timers of a machine. -/
inductive Timer where
  | delay
  | sound

/-- The operation that sets a timer. -/
def Timer.setter : Timer → Opcode
  | delay => .writeDelay
  | sound => .writeSound

namespace State

/-- The value of a timer. -/
def timer (s : State) : Timer → UInt8
  | .delay => s.delay
  | .sound => s.sound

theorem toNat_timer_countDown (s : State) (ticks : Nat) (t : Timer) :
    ((s.countDown ticks).timer t).toNat = (s.timer t).toNat - ticks := by
  cases t with
  | delay => exact s.toNat_delay_countDown ticks
  | sound => exact s.toNat_sound_countDown ticks

/-- Ticks may be cut to a byte before they are counted, since no timer holds more. -/
theorem countDown_min (s : State) (ticks : Nat) :
    s.countDown (min ticks 255) = s.countDown ticks := by
  have hcut : ∀ b : UInt8, b.toNat - min ticks 255 = b.toNat - ticks := by
    intro b
    have hb := b.toNat_lt
    omega
  rw [countDown, hcut, hcut]
  rfl

/-- An instruction leaves a timer alone unless it sets it. -/
theorem timer_execute (s : State) (inputs : Inputs) {instruction : Instruction} {t : Timer}
    (h : instruction.opcode ≠ t.setter) :
    (s.execute inputs instruction).timer t = s.timer t := by
  cases t with
  | delay => exact (s.execute_writesOnly inputs instruction).delay h
  | sound => exact (s.execute_writesOnly inputs instruction).sound h

end State

/-! ## Time that passes -/

/-- What lets time pass for a machine: a step, which reads the clock, or a span told to it. -/
inductive Passage where
  | step (i : StepInputs)
  | span (nanos : Nat)

namespace Passage

/-- The reading that the next step counts from. -/
def reading (before : Option Nat) : Passage → Option Nat
  | .step i => some i.now
  | .span _ => before

/-- The time that the timers have to count: the whole of a span, and of a step the time since the
reading before, unless there is none, the clock went back or the step freezes the timers. -/
def unfrozen (before : Option Nat) : Passage → Nat
  | .step i => if i.frozen then 0 else before.elim 0 fun reading => i.now - reading
  | .span nanos => nanos

/-- The time that the timers have to count altogether. -/
def total (before : Option Nat) : List Passage → Nat
  | [] => 0
  | p :: ps => p.unfrozen before + total (p.reading before) ps

theorem unfrozen_step (c : TickClock) (i : StepInputs) :
    (step i).unfrozen c.lastReading = if i.frozen then 0 else c.elapsed i.now := by
  rw [unfrozen, TickClock.elapsed]
  cases c.lastReading <;> rfl

end Passage

namespace Machine

/-- The machine after some time has passed for it. -/
def pass (m : Machine) : Passage → Machine
  | .step i => m.step i
  | .span nanos => m.decay nanos

/-- The machine after steps and spans, one after the other. -/
def after (m : Machine) (ps : List Passage) : Machine := ps.foldl pass m

/-- The instructions executed meanwhile. -/
def executed : Machine → List Passage → List Instruction
  | _, [] => []
  | m, .step i :: ps => (m.step i).last :: executed (m.step i) ps
  | m, .span nanos :: ps => executed (m.decay nanos) ps

section

variable (m : Machine) (p : Passage)

@[simp]
theorem after_cons (ps : List Passage) : m.after (p :: ps) = (m.pass p).after ps := rfl

/-- Steps alone are a run. -/
theorem after_map_step (is : List StepInputs) : m.after (is.map .step) = m.run is := by
  rw [after, List.foldl_map]
  rfl

theorem ticksAt_eq_ticks_unfrozen (i : StepInputs) :
    m.ticksAt i.now i.frozen = m.clock.ticks ((Passage.step i).unfrozen m.clock.lastReading) := by
  rw [Passage.unfrozen_step, ticksAt]
  cases i.frozen with
  | true => exact m.clock.ticks_zero.symm
  | false => rfl

/-- What the clock remembers: the reading, and the rest of the time that counts. -/
theorem clock_pass :
    (m.pass p).clock =
      { m.clock.settle (p.unfrozen m.clock.lastReading) with
        lastReading := p.reading m.clock.lastReading } := by
  cases p with
  | span nanos => rfl
  | step i =>
    show (m.readClock i.now i.frozen).clock = _
    rw [Passage.unfrozen_step, readClock]
    cases i.frozen with
    | true =>
      rw [if_pos rfl, if_pos rfl, m.clock.settle_zero]
      rfl
    | false => rfl

/-- A timer that is not set falls by the ticks of the time that counts. -/
theorem toNat_timer_pass {t : Timer} (h : ∀ i ∈ m.executed [p], i.opcode ≠ t.setter) :
    ((m.pass p).state.timer t).toNat =
      (m.state.timer t).toNat - m.clock.ticks (p.unfrozen m.clock.lastReading) := by
  cases p with
  | span nanos => exact m.state.toNat_timer_countDown _ t
  | step i =>
    have hnext : m.next.opcode ≠ t.setter := by
      rw [← m.step_last i]
      exact h _ (List.mem_singleton_self _)
    have hadvance : ∀ s : State, s.advance.timer t = s.timer t := by
      intro s
      cases t <;> rfl
    rw [pass, step_state, hadvance, State.timer_execute _ _ hnext, State.toNat_timer_countDown,
      ticksAt_eq_ticks_unfrozen]

theorem executed_cons (ps : List Passage) :
    m.executed (p :: ps) = m.executed [p] ++ (m.pass p).executed ps := by
  cases p <;> rfl

end

/-- The rest carried after steps and spans is that of their whole time. -/
theorem pending_after (m : Machine) (ps : List Passage) :
    (m.after ps).clock.pending =
      (m.clock.settle (Passage.total m.clock.lastReading ps)).pending := by
  induction ps generalizing m with
  | nil => exact congrArg TickClock.pending m.clock.settle_zero.symm
  | cons p ps ih =>
    rw [after_cons, ih, clock_pass, Passage.total, ← TickClock.settle_settle]
    rfl

/-- A timer that is not set falls by the ticks of the whole time. -/
theorem toNat_timer_after {m : Machine} {ps : List Passage} {t : Timer}
    (h : ∀ i ∈ m.executed ps, i.opcode ≠ t.setter) :
    ((m.after ps).state.timer t).toNat =
      (m.state.timer t).toNat - m.clock.ticks (Passage.total m.clock.lastReading ps) := by
  induction ps generalizing m with
  | nil =>
    rw [Passage.total, TickClock.ticks_zero]
    rfl
  | cons p ps ih =>
    rw [executed_cons] at h
    have hfirst := m.toNat_timer_pass p fun i hi => h i (List.mem_append_left _ hi)
    have hrest := ih fun i hi => h i (List.mem_append_right _ hi)
    -- The rest of the first time is carried over to the others.
    rw [after_cons, hrest, hfirst, Nat.sub_sub, clock_pass, Passage.total, TickClock.ticks_add]
    rfl

/-- How the same time is divided makes no difference to a timer that is not set. -/
theorem timer_after_congr {m : Machine} {ps qs : List Passage} {t : Timer}
    (h : ∀ i ∈ m.executed ps ++ m.executed qs, i.opcode ≠ t.setter)
    (htotal : Passage.total m.clock.lastReading qs = Passage.total m.clock.lastReading ps) :
    (m.after qs).state.timer t = (m.after ps).state.timer t := by
  have hps := toNat_timer_after fun i hi => h i (List.mem_append_left _ hi)
  have hqs := toNat_timer_after fun i hi => h i (List.mem_append_right _ hi)
  apply UInt8.toNat_inj.1
  rw [hqs, hps, htotal]

end Machine

/-- Timers count the whole time that is not frozen, and nothing else matters to them. Take any
machine, and any steps and spans of time. A timer that no executed instruction sets falls by the
whole ticks of the time, the rest carried from before included, and what is left of a tick is
carried on. So two ways to divide the same time have the same effect; and cycles and frames are no
more than ways to make steps. -/
theorem timers_after_eq_total (m : Machine) (ps : List Passage) :
    let total := Passage.total m.clock.lastReading
    let due := m.clock.pending.val + 60 * total ps
    ((∀ i ∈ m.executed ps, i.opcode ≠ .writeDelay) →
        (m.after ps).state.delay.toNat = m.state.delay.toNat - due / nanosPerSecond) ∧
      ((∀ i ∈ m.executed ps, i.opcode ≠ .writeSound) →
        (m.after ps).state.sound.toNat = m.state.sound.toNat - due / nanosPerSecond) ∧
      (m.after ps).clock.pending.val = due % nanosPerSecond ∧
      (∀ qs, total qs = total ps →
        (m.after qs).clock.pending = (m.after ps).clock.pending ∧
          ((∀ i ∈ m.executed ps ++ m.executed qs, i.opcode ≠ .writeDelay) →
            (m.after qs).state.delay = (m.after ps).state.delay) ∧
          ((∀ i ∈ m.executed ps ++ m.executed qs, i.opcode ≠ .writeSound) →
            (m.after qs).state.sound = (m.after ps).state.sound)) ∧
      ∀ is m', m.Makes is m' → m' = m.after (is.map .step) := by
  intro total due
  have hdue : m.clock.due (total ps) = due := by
    rw [TickClock.due, timerRate, Nat.mul_comm]
  have hticks : m.clock.ticks (total ps) = due / nanosPerSecond := by rw [TickClock.ticks, hdue]
  refine ⟨fun h => ?_, fun h => ?_, ?_, fun qs hqs => ⟨?_, fun h => ?_, fun h => ?_⟩,
    fun is m' h => ?_⟩
  · rw [← hticks]
    exact Machine.toNat_timer_after (t := .delay) h
  · rw [← hticks]
    exact Machine.toNat_timer_after (t := .sound) h
  · rw [m.pending_after ps, ← hdue]
    rfl
  · rw [m.pending_after qs, m.pending_after ps]
    exact congrArg (fun n => (m.clock.settle n).pending) hqs
  · exact Machine.timer_after_congr (t := .delay) h hqs
  · exact Machine.timer_after_congr (t := .sound) h hqs
  · rw [m.after_map_step is, h.eq_run]

/-- A machine without a program, with a second on the delay timer and a trace of sound. -/
def oneSecondLeft : Machine := { Machine.new with state.delay := 60, state.sound := 3 }

/-- A span, and steps of which one is frozen and one follows a clock that went back. -/
def mixedPassages : List Passage :=
  let reading := fun now frozen => Passage.step ⟨⟨Keypad.none, 0⟩, now, frozen⟩
  [.span 10000000, reading 0 false, reading 500000000 false, reading 700000000 true,
    reading 600000000 false, reading 610000000 false]

theorem mixedPassages_count :
    (∀ i ∈ oneSecondLeft.executed mixedPassages,
      i.opcode ≠ .writeDelay ∧ i.opcode ≠ .writeSound) ∧
      Passage.total oneSecondLeft.clock.lastReading mixedPassages = 520000000 ∧
      (oneSecondLeft.after mixedPassages).state.delay.toNat = 29 ∧
      (oneSecondLeft.after mixedPassages).state.sound.toNat = 0 ∧
      (oneSecondLeft.after mixedPassages).clock.pending.val = 200000000 := by
  have hunset : ∀ i ∈ oneSecondLeft.executed mixedPassages,
      i.opcode ≠ .writeDelay ∧ i.opcode ≠ .writeSound := by
    decide +kernel
  obtain ⟨hdelay, hsound, hpending, -⟩ := timers_after_eq_total oneSecondLeft mixedPassages
  exact ⟨hunset, rfl, hdelay fun i hi => (hunset i hi).1, hsound fun i hi => (hunset i hi).2,
    hpending⟩

end Chip8
