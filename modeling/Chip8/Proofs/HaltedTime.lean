import Chip8.Proofs.Frames
import Mathlib.Data.List.Induction

/-!
# Time spent halted

The timers of a machine fall by the time between two readings of its clock. A runner that keeps
time spent halted from them freezes the first frame that follows an update made while it was not
running. A pause that no such update has noticed is charged to the timers.

A session records what can be compared: the periods in which the runner was not running, and the
periods that unfrozen steps charge. `clear_after_begin_iff` says exactly when no charge overlaps a
pause. The invariant is that the past lies in the past (`Session.Recorded`): pauses and charges end
by the present time, so only the first charge of an update can reach back into a pause, and a new
pause cannot reach back into a charge.
-/

set_option autoImplicit false

namespace Chip8

/-- A stretch of time. -/
structure Period where
  first : Nat
  last : Nat
  deriving DecidableEq

/-- Two periods have more than a moment in common. -/
def Period.Overlaps (p q : Period) : Prop := max p.first q.first < min p.last q.last

instance (p q : Period) : Decidable (p.Overlaps q) := Nat.decLt _ _

theorem Period.Overlaps.symm {p q : Period} (h : p.Overlaps q) : q.Overlaps p := by
  unfold Overlaps at h ⊢
  omega

theorem Period.not_overlaps_of_le {p q : Period} (h : q.last ≤ p.first) : ¬ p.Overlaps q := by
  unfold Overlaps
  omega

/-- How far a period goes on after another one does not matter. -/
theorem Period.overlaps_mk_iff {first last last' : Nat} {p : Period} (hp : p.last ≤ last)
    (h : last ≤ last') : (mk first last').Overlaps p ↔ (mk first last).Overlaps p := by
  unfold Overlaps
  dsimp only
  omega

/-! ## Periods charged to the timers -/

namespace Machine

/-- The period by which a step lets the timers fall: from the reading before it to its own. -/
def charge (m : Machine) (i : StepInputs) : Option Period :=
  if i.frozen then none else m.clock.lastReading.map fun before => ⟨before, i.now⟩

/-- The periods that steps charge, in order. -/
def charges : Machine → List StepInputs → List Period
  | _, [] => []
  | m, i :: is => (m.charge i).toList ++ charges (m.step i) is

/-- The timers fall by the ticks of the period charged. -/
theorem ticksAt_eq_ticks_charge (m : Machine) (i : StepInputs) :
    m.ticksAt i.now i.frozen =
      m.clock.ticks ((m.charge i).elim 0 fun p => p.last - p.first) := by
  unfold ticksAt charge
  cases i.frozen with
  | true => exact m.clock.ticks_zero.symm
  | false =>
    unfold TickClock.elapsed
    cases m.clock.lastReading <;> rfl

/-- A series charges the period of its first step, if that is not frozen and a reading precedes it,
and the periods of the others. -/
theorem mem_charges_cons {m : Machine} {i : StepInputs} {is : List StepInputs} {c : Period} :
    c ∈ m.charges (i :: is) ↔
      (i.frozen = false ∧ ∃ before, m.clock.lastReading = some before ∧ c = ⟨before, i.now⟩) ∨
        c ∈ (m.step i).charges is := by
  rw [charges, List.mem_append, Option.mem_toList, charge]
  refine or_congr_left ?_
  cases i.frozen with
  | true => simp
  | false => simp [Option.map_eq_some_iff, eq_comm (a := c)]

/-- Charges end at readings. -/
theorem last_le_of_mem_charges {m : Machine} {is : List StepInputs} {t : Nat}
    (his : ∀ i ∈ is, i.now ≤ t) : ∀ c ∈ m.charges is, c.last ≤ t := by
  induction is generalizing m with
  | nil => simp [charges]
  | cons i is ih =>
    intro c hc
    rcases mem_charges_cons.1 hc with ⟨-, before, -, rfl⟩ | hc
    · exact his i (by simp)
    · exact ih (fun j hj => his j (by simp [hj])) c hc

/-- After a reading, charges do not reach back behind it. -/
theorem not_overlaps_of_lastReading {m : Machine} {is : List StepInputs} {t : Nat} {p : Period}
    (hp : p.last ≤ t) (hm : ∀ before, m.clock.lastReading = some before → t ≤ before)
    (his : ∀ i ∈ is, t ≤ i.now) : ∀ c ∈ m.charges is, ¬ c.Overlaps p := by
  induction is generalizing m with
  | nil => simp [charges]
  | cons i is ih =>
    intro c hc
    rcases mem_charges_cons.1 hc with ⟨-, before, hbefore, rfl⟩ | hc
    · exact Period.not_overlaps_of_le (Nat.le_trans hp (hm before hbefore))
    · refine ih (fun before hbefore => ?_) (fun j hj => his j (by simp [hj])) c hc
      rw [step_lastReading] at hbefore
      obtain rfl := Option.some.inj hbefore
      exact his i (by simp)

/-- Of a series of steps only the first can charge time from before the series: the time since the
reading before it, unless it is frozen. -/
theorem exists_charge_overlaps_iff {m : Machine} {i : StepInputs} {is : List StepInputs} {t : Nat}
    {p : Period} (hp : p.last ≤ t) (hi : t ≤ i.now) (his : ∀ j ∈ is, t ≤ j.now) :
    (∃ c ∈ m.charges (i :: is), c.Overlaps p) ↔
      i.frozen = false ∧ ∃ before, m.clock.lastReading = some before ∧
        (Period.mk before t).Overlaps p := by
  -- The first step reads the clock, so the others charge nothing from before it.
  have hrest : ∀ c ∈ charges (m.step i) is, ¬ c.Overlaps p := by
    refine not_overlaps_of_lastReading hp (fun before hbefore => ?_) his
    rw [step_lastReading] at hbefore
    obtain rfl := Option.some.inj hbefore
    exact hi
  constructor
  · rintro ⟨c, hc, hover⟩
    rcases mem_charges_cons.1 hc with ⟨hfrozen, before, hbefore, rfl⟩ | hc
    · exact ⟨hfrozen, before, hbefore, (Period.overlaps_mk_iff hp hi).1 hover⟩
    · exact absurd hover (hrest c hc)
  · rintro ⟨hfrozen, before, hbefore, hover⟩
    refine ⟨⟨before, i.now⟩, ?_, (Period.overlaps_mk_iff hp hi).2 hover⟩
    exact mem_charges_cons.2 (Or.inl ⟨hfrozen, before, hbefore, rfl⟩)

end Machine

/-! ## Sessions -/

/-- A runner with its machine on a host, and a record of the past. -/
structure Session (α : Type) where
  runner : Runner α
  machine : Machine
  host : Tape
  /-- The periods in which the runner was not running. -/
  pauses : List Period
  /-- The periods by which unfrozen steps of updates have let the timers fall. -/
  charges : List Period

namespace Session

/-- What happens in a session: time passes, or the runner is called. -/
inductive Event where
  | wait (nanos : Nat)
  | start
  | stop
  | update (span : Nat) (keys : HeldKeys)

def Event.isUpdate : Event → Bool
  | .update _ _ => true
  | _ => false

variable {α : Type} [PaceNumber α]

/-- A session that begins now, after a time `idle` in which the runner was not running. -/
def begin (runner : Runner α) (machine : Machine) (host : Tape) (idle : Nat) : Session α :=
  ⟨runner, machine, host, [⟨host.time - idle, host.time⟩], []⟩

/-- The frame that an update makes. -/
def frame (s : Session α) (span : Nat) : Runner.Frame :=
  (s.runner.frame span s.machine.isLooping).1

/-- What the steps of an update take from the host, and the host after them. -/
def feed (s : Session α) (span : Nat) (keys : HeldKeys) : List StepInputs × Tape :=
  s.host.feed keys (s.frame span).frozen (s.frame span).count.toNat

/-- The session after an event. -/
def apply (s : Session α) : Event → Session α
  | .wait nanos =>
      { s with
        host := s.host.pass nanos
        pauses :=
          if s.runner.isRunning then s.pauses
          else ⟨s.host.time, s.host.time + nanos⟩ :: s.pauses }
  | .start => { s with runner := s.runner.start }
  | .stop => { s with runner := s.runner.stop }
  | .update span keys =>
      let ((_, runner, machine), host) :=
        (s.runner.update s.machine span keys : StateM Tape _).run s.host
      { s with
        runner := runner
        machine := machine
        host := host
        charges := s.machine.charges (s.feed span keys).1 ++ s.charges }

/-- The session after a sequence of events. -/
def after (s : Session α) (events : List Event) : Session α := events.foldl apply s

/-- No charge has anything in common with a pause. -/
def Clear (s : Session α) : Prop := ∀ c ∈ s.charges, ∀ p ∈ s.pauses, ¬ c.Overlaps p

/-- An update executes an instruction. -/
def Executes (s : Session α) (span : Nat) : Prop := (s.frame span).count ≠ 0

/-- The runner has not been running all the time since the machine last read its clock. -/
def PausedSinceReading (s : Session α) : Prop :=
  ∃ before, s.machine.clock.lastReading = some before ∧
    ∃ p ∈ s.pauses, (Period.mk before s.host.time).Overlaps p

/-- The latest update among the events let the machine run. Without an update among them it is the
one before the session. -/
inductive LatestUpdateRan (s : Session α) : List Event → Prop where
  | before : s.runner.ranLast = true → LatestUpdateRan s []
  | update {events : List Event} {span : Nat} {keys : HeldKeys} :
      (s.after events).runner.Lets (s.after events).machine.isLooping →
        LatestUpdateRan s (events ++ [.update span keys])
  | other {events : List Event} {e : Event} :
      e.isUpdate = false → LatestUpdateRan s events → LatestUpdateRan s (events ++ [e])

theorem apply_update (s : Session α) (span : Nat) (keys : HeldKeys) :
    s.apply (.update span keys) =
      { s with
        runner := (s.runner.frame span s.machine.isLooping).2
        machine := s.machine.run (s.feed span keys).1
        host := (s.feed span keys).2
        charges := s.machine.charges (s.feed span keys).1 ++ s.charges } := by
  rw [apply, Runner.update_eq_map]
  rfl

theorem after_cons (s : Session α) (e : Event) (events : List Event) :
    s.after (e :: events) = (s.apply e).after events := rfl

theorem after_append_singleton (s : Session α) (events : List Event) (e : Event) :
    s.after (events ++ [e]) = (s.after events).apply e := List.foldl_append

theorem stopTimers_apply (s : Session α) (e : Event) :
    (s.apply e).runner.stopTimers = s.runner.stopTimers := by
  cases e with
  | wait nanos => rfl
  | start => rfl
  | stop => rfl
  | update span keys =>
    rw [apply_update]
    exact Runner.frame_stopTimers _ _ _

/-! ## What an update executes -/

theorem inputs_of_feed (s : Session α) (span : Nat) (keys : HeldKeys) :
    ∀ i ∈ (s.feed span keys).1, i.frozen = (s.frame span).frozen ∧
      s.host.time ≤ i.now ∧ i.now ≤ (s.feed span keys).2.time :=
  (Tape.time_feed ..).2

theorem feed_of_not_executes {s : Session α} {span : Nat} {keys : HeldKeys}
    (h : ¬ s.Executes span) : (s.feed span keys).1 = [] := by
  have hcount : (s.frame span).count = 0 := not_not.1 h
  apply List.eq_nil_of_length_eq_zero
  rw [feed, Tape.length_feed, hcount]
  rfl

theorem Executes.exists_feed {s : Session α} {span : Nat} (h : s.Executes span) (keys : HeldKeys) :
    ∃ i is, (s.feed span keys).1 = i :: is := by
  apply List.exists_cons_of_length_pos
  rw [feed, Tape.length_feed]
  apply Nat.pos_of_ne_zero
  intro hzero
  exact h (UInt32.toNat_inj.1 hzero)

theorem Executes.lets {s : Session α} {span : Nat} (h : s.Executes span) :
    s.runner.Lets s.machine.isLooping := by
  by_contra hne
  apply h
  rw [frame, (Runner.frame_of_not_lets hne span).1]
  rfl

/-- Only a frame that comes after an update that did not let the machine run is frozen. -/
theorem Executes.frozen {s : Session α} {span : Nat} (h : s.Executes span)
    (hstop : s.runner.stopTimers = true) : (s.frame span).frozen = !s.runner.ranLast := by
  rw [frame, Runner.frame_of_lets h.lets, hstop]
  rfl

/-! ## What the runner remembers -/

theorem latestUpdateRan_append_update {s : Session α} {events : List Event} {span : Nat}
    {keys : HeldKeys} :
    LatestUpdateRan s (events ++ [.update span keys]) ↔
      (s.after events).runner.Lets (s.after events).machine.isLooping := by
  refine ⟨fun h => ?_, .update⟩
  generalize hl : events ++ [Event.update span keys] = l at h
  cases h with
  | before h => simp at hl
  | update h =>
    obtain ⟨rfl, -⟩ := List.append_inj' hl rfl
    exact h
  | other he h =>
    obtain ⟨-, heq⟩ := List.append_inj' hl rfl
    rw [← List.singleton_inj.1 heq] at he
    exact Bool.noConfusion he

theorem latestUpdateRan_append_other {s : Session α} {events : List Event} {e : Event}
    (he : e.isUpdate = false) :
    LatestUpdateRan s (events ++ [e]) ↔ LatestUpdateRan s events := by
  refine ⟨fun h => ?_, .other he⟩
  generalize hl : events ++ [e] = l at h
  cases h with
  | before h => simp at hl
  | update h =>
    obtain ⟨-, heq⟩ := List.append_inj' hl rfl
    rw [List.singleton_inj.1 heq] at he
    exact Bool.noConfusion he
  | other he' h =>
    obtain ⟨rfl, -⟩ := List.append_inj' hl rfl
    exact h

/-- The runner remembers of the past whether its latest update let the machine run. -/
theorem ranLast_after_iff (s : Session α) (events : List Event) :
    (s.after events).runner.ranLast = true ↔ LatestUpdateRan s events := by
  -- From the right: the runner remembers only its latest update.
  induction events using List.reverseRecOn with
  | nil =>
    refine ⟨.before, fun h => ?_⟩
    generalize hl : ([] : List Event) = l at h
    cases h with
    | before h => exact h
    | update h => simp at hl
    | other he h => simp at hl
  | append_singleton events e ih =>
    rw [after_append_singleton]
    cases e with
    | wait nanos => exact ih.trans (latestUpdateRan_append_other rfl).symm
    | start => exact ih.trans (latestUpdateRan_append_other rfl).symm
    | stop => exact ih.trans (latestUpdateRan_append_other rfl).symm
    | update span keys =>
      rw [latestUpdateRan_append_update, apply_update]
      exact Runner.frame_ranLast _ _ _

/-! ## Charges and pauses -/

/-- The record of the past lies in the past. -/
structure Recorded (s : Session α) : Prop where
  pauses : ∀ p ∈ s.pauses, p.last ≤ s.host.time
  charges : ∀ c ∈ s.charges, c.last ≤ s.host.time

omit [PaceNumber α] in
theorem recorded_begin (runner : Runner α) (machine : Machine) (host : Tape) (idle : Nat) :
    (begin runner machine host idle).Recorded := by
  refine ⟨fun p hp => ?_, fun c hc => ?_⟩
  · obtain rfl := List.mem_singleton.1 hp
    exact Nat.le_refl _
  · simp [begin] at hc

theorem Recorded.apply {s : Session α} (h : s.Recorded) (e : Event) : (s.apply e).Recorded := by
  obtain ⟨hpauses, hcharges⟩ := h
  cases e with
  | wait nanos =>
    have hpass : s.host.time ≤ (s.host.pass nanos).time := Nat.le_add_right _ _
    refine ⟨fun p hp => ?_, fun c hc => Nat.le_trans (hcharges c hc) hpass⟩
    simp only [Session.apply] at hp
    split at hp
    · exact Nat.le_trans (hpauses p hp) hpass
    · rcases List.mem_cons.1 hp with rfl | hp
      · exact Nat.le_refl _
      · exact Nat.le_trans (hpauses p hp) hpass
  | start => exact ⟨hpauses, hcharges⟩
  | stop => exact ⟨hpauses, hcharges⟩
  | update span keys =>
    -- The clock does not go back, and every reading of an update lies between its ends.
    obtain ⟨htime, hinputs⟩ :=
      Tape.time_feed keys (s.frame span).frozen (s.frame span).count.toNat s.host
    rw [apply_update]
    refine ⟨fun p hp => Nat.le_trans (hpauses p hp) htime, fun c hc => ?_⟩
    rcases List.mem_append.1 hc with hc | hc
    · exact Machine.last_le_of_mem_charges (fun i hi => (hinputs i hi).2.2) c hc
    · exact Nat.le_trans (hcharges c hc) htime

/-- An update charges a pause exactly if it executes an instruction, the latest update let the
machine run, and there has been a pause since the machine last read its clock. -/
theorem exists_charge_of_update_iff {s : Session α} (h : s.Recorded)
    (hstop : s.runner.stopTimers = true) (span : Nat) (keys : HeldKeys) :
    (∃ c ∈ s.machine.charges (s.feed span keys).1, ∃ p ∈ s.pauses, c.Overlaps p) ↔
      s.Executes span ∧ s.runner.ranLast = true ∧ s.PausedSinceReading := by
  by_cases hexecutes : s.Executes span
  · obtain ⟨i, is, hfeed⟩ := hexecutes.exists_feed keys
    have hinputs := s.inputs_of_feed span keys
    rw [hfeed] at hinputs
    have hran : i.frozen = false ↔ s.runner.ranLast = true := by
      rw [(hinputs i (by simp)).1, hexecutes.frozen hstop, Bool.not_eq_false']
    -- Which periods reach back into a pause does not depend on the time that the update takes.
    have hpause : ∀ p ∈ s.pauses, (∃ c ∈ s.machine.charges (i :: is), c.Overlaps p) ↔
        i.frozen = false ∧ ∃ before, s.machine.clock.lastReading = some before ∧
          (Period.mk before s.host.time).Overlaps p := by
      intro p hp
      apply Machine.exists_charge_overlaps_iff (h.pauses p hp)
      · exact (hinputs i (by simp)).2.1
      · exact fun j hj => (hinputs j (by simp [hj])).2.1
    rw [hfeed]
    constructor
    · rintro ⟨c, hc, p, hp, hover⟩
      obtain ⟨hunfrozen, before, hbefore, hover⟩ := (hpause p hp).1 ⟨c, hc, hover⟩
      exact ⟨hexecutes, hran.1 hunfrozen, before, hbefore, p, hp, hover⟩
    · rintro ⟨-, hranLast, before, hbefore, p, hp, hover⟩
      obtain ⟨c, hc, hover⟩ := (hpause p hp).2 ⟨hran.2 hranLast, before, hbefore, hover⟩
      exact ⟨c, hc, p, hp, hover⟩
  · rw [feed_of_not_executes hexecutes]
    constructor
    · rintro ⟨c, hc, -⟩
      simp [Machine.charges] at hc
    · rintro ⟨hexecutes', -⟩
      exact absurd hexecutes' hexecutes

/-- An event keeps charges and pauses apart unless it is an update that charges a pause. -/
theorem clear_apply_iff {s : Session α} (h : s.Recorded) (hstop : s.runner.stopTimers = true)
    (e : Event) :
    (s.apply e).Clear ↔ s.Clear ∧ ∀ span keys, e = .update span keys → s.Executes span →
      s.PausedSinceReading → ¬ s.runner.ranLast = true := by
  cases e with
  | wait nanos =>
    refine Iff.trans ?_ (and_iff_left fun _ _ heq => Event.noConfusion heq).symm
    constructor
    · intro hclear c hc p hp
      refine hclear c hc p ?_
      simp only [apply]
      split
      · exact hp
      · exact List.mem_cons_of_mem _ hp
    · intro hclear c hc p hp
      simp only [apply] at hp
      split at hp
      · exact hclear c hc p hp
      · rcases List.mem_cons.1 hp with rfl | hp
        · -- The new pause begins now, and charges lie in the past.
          exact fun hover => Period.not_overlaps_of_le (h.charges c hc) hover.symm
        · exact hclear c hc p hp
  | start => exact (and_iff_left fun _ _ heq => Event.noConfusion heq).symm
  | stop => exact (and_iff_left fun _ _ heq => Event.noConfusion heq).symm
  | update span keys =>
    have hcharge := exists_charge_of_update_iff h hstop span keys
    rw [apply_update]
    constructor
    · intro hclear
      refine ⟨fun c hc => hclear c (List.mem_append_right _ hc), ?_⟩
      rintro span' keys' heq hexecutes hpaused hran
      obtain ⟨rfl, rfl⟩ := Event.update.inj heq
      obtain ⟨c, hc, p, hp, hover⟩ := hcharge.2 ⟨hexecutes, hran, hpaused⟩
      exact hclear c (List.mem_append_left _ hc) p hp hover
    · rintro ⟨hclear, hupdate⟩ c hc p hp hover
      rcases List.mem_append.1 hc with hc | hc
      · obtain ⟨hexecutes, hran, hpaused⟩ := hcharge.1 ⟨c, hc, p, hp, hover⟩
        exact hupdate span keys rfl hexecutes hpaused hran
      · exact hclear c hc p hp hover

theorem clear_after_iff {s : Session α} (h : s.Recorded) (hstop : s.runner.stopTimers = true)
    (events : List Event) :
    (s.after events).Clear ↔ s.Clear ∧ ∀ before span keys rest,
      events = before ++ .update span keys :: rest → (s.after before).Executes span →
        (s.after before).PausedSinceReading → ¬ (s.after before).runner.ranLast = true := by
  induction events generalizing s with
  | nil => simp [after]
  | cons e events ih =>
    rw [after_cons, ih (h.apply e) (by rw [stopTimers_apply, hstop]), clear_apply_iff h hstop]
    -- An update among the events is the first of them or one of the others.
    constructor
    · rintro ⟨⟨hclear, hfirst⟩, hrest⟩
      refine ⟨hclear, fun before span keys rest heq => ?_⟩
      cases before with
      | nil =>
        obtain ⟨rfl, -⟩ := List.cons.inj heq
        exact hfirst span keys rfl
      | cons e' before =>
        obtain ⟨rfl, htail⟩ := List.cons.inj heq
        exact hrest before span keys rest htail
    · rintro ⟨hclear, hall⟩
      refine ⟨⟨hclear, ?_⟩, fun before span keys rest heq => ?_⟩
      · rintro span keys rfl
        exact hall [] span keys events rfl
      · exact hall (e :: before) span keys rest (by rw [heq, List.cons_append])

end Session

/-- When time spent halted is kept from the timers. Take any runner that is to keep it from them,
any machine and any course of the clock. In a session of starts, stops, updates and waits, no
unfrozen step charges time in which the runner was not running, exactly if each update that executes
an instruction after a pause in the time since the machine last read its clock comes after an update
that did not let the machine run. -/
theorem clear_after_begin_iff {α : Type} [PaceNumber α] (runner : Runner α)
    (hstop : runner.stopTimers = true) (machine : Machine) (host : Tape) (idle : Nat)
    (events : List Session.Event) :
    let s := Session.begin runner machine host idle
    (∀ c ∈ (s.after events).charges, ∀ p ∈ (s.after events).pauses, ¬ c.Overlaps p) ↔
      ∀ before span keys rest, events = before ++ .update span keys :: rest →
        (s.after before).Executes span → (s.after before).PausedSinceReading →
          ¬ s.LatestUpdateRan before := by
  intro s
  have hclear : s.Clear := fun c hc => by simp [s, Session.begin] at hc
  have hiff :=
    Session.clear_after_iff (Session.recorded_begin runner machine host idle) hstop events
  simp only [Session.ranLast_after_iff] at hiff
  exact hiff.trans (and_iff_right hclear)

/-! ## A pause that no update notices -/

namespace Session

/-- A machine at the start with a delay of one second. -/
def oneSecondMachine : Machine := { Machine.new with state.delay := 60 }

/-- A runner that executes one instruction in a quarter of a second, on a clock that moves only
while the session waits. -/
def oneSecond : Session Rat :=
  begin (.ofSettings { Settings.default with speed := 4 }) oneSecondMachine
    ⟨0, fun _ => 0, fun _ => 0⟩ 0

/-- A second between a stop and a start, without an update in between. -/
def unnoticedPause : List Event :=
  [.start, .update 250000000 Keypad.none, .stop, .wait 1000000000, .start,
    .update 250000000 Keypad.none]

/-- A second between a stop and a start, with an update in between, and a further frame. -/
def noticedPause : List Event :=
  [.start, .update 250000000 Keypad.none, .stop, .wait 1000000000, .update 0 Keypad.none, .start,
    .update 250000000 Keypad.none, .wait 20000000, .update 250000000 Keypad.none]

end Session

/-- A second spent halted is charged to the timers: the delay runs out in it. -/
theorem unnoticed_pause_is_charged :
    Session.oneSecond.runner.stopTimers = true ∧
      (Session.oneSecond.after Session.unnoticedPause).charges = [⟨0, 1000000000⟩] ∧
      (Session.oneSecond.after Session.unnoticedPause).pauses = [⟨0, 1000000000⟩, ⟨0, 0⟩] ∧
      Session.oneSecond.machine.state.delay = 60 ∧
      (Session.oneSecond.after Session.unnoticedPause).machine.state.delay = 0 ∧
      ¬ ∀ c ∈ (Session.oneSecond.after Session.unnoticedPause).charges,
        ∀ p ∈ (Session.oneSecond.after Session.unnoticedPause).pauses, ¬ c.Overlaps p := by
  decide +kernel

theorem noticed_pause_is_not_charged :
    Session.oneSecond.runner.stopTimers = true ∧
      (Session.oneSecond.after Session.noticedPause).charges = [⟨1000000000, 1020000000⟩] ∧
      (Session.oneSecond.after Session.noticedPause).pauses = [⟨0, 1000000000⟩, ⟨0, 0⟩] ∧
      ∀ before span keys rest, Session.noticedPause = before ++ .update span keys :: rest →
        (Session.oneSecond.after before).Executes span →
          (Session.oneSecond.after before).PausedSinceReading →
            ¬ Session.oneSecond.LatestUpdateRan before := by
  have hcharges : (Session.oneSecond.after Session.noticedPause).charges =
      [⟨1000000000, 1020000000⟩] := by
    decide +kernel
  have hpauses : (Session.oneSecond.after Session.noticedPause).pauses =
      [⟨0, 1000000000⟩, ⟨0, 0⟩] := by
    decide +kernel
  have hclear : Session.oneSecond.after Session.noticedPause |>.Clear := by
    rw [Session.Clear, hcharges, hpauses]
    decide
  exact ⟨rfl, hcharges, hpauses, (clear_after_begin_iff _ rfl _ _ _ Session.noticedPause).1 hclear⟩

end Chip8
