import Chip8.Proofs.LoopHalt
import Chip8.Proofs.Operation
import Mathlib.Algebra.GroupWithZero.Nat
import Mathlib.Data.List.Induction

/-!
# Calls of a runner

A runner is told to start and to stop, is called for single steps and for updates, in any order.
The steps that its machine makes meanwhile are accounted for: as many as the updates have counted,
and one for each single step that was called for while the runner was not running. No instruction is
executed beside them and none of them is left out (`calls_account_for_steps`).

The status tells which call has changed it last, if one has. Only one kind of call gives each status
(`Runner.Call.Gives`), and a call that gives none leaves the status as it was.

Each call may find the host in another state, so anything may happen between two calls.
-/

set_option autoImplicit false

namespace Chip8

/-- A call of a runner. -/
inductive Runner.Call where
  | start
  | stop
  /-- A single step. -/
  | step (keys : HeldKeys)
  /-- A frame of a given length. -/
  | update (span : Nat) (keys : HeldKeys)

/-- A runner with the machine that it is called for. -/
structure Driven (α : Type) where
  runner : Runner α
  machine : Machine

namespace Driven

variable {α : Type} [PaceNumber α]

/-- Carries a call out. Only an update gives a number back. -/
def call {m : Type → Type} [Monad m] [Host m] (d : Driven α) :
    Runner.Call → m (Option UInt32 × Driven α)
  | .start => return (none, { d with runner := d.runner.start })
  | .stop => return (none, { d with runner := d.runner.stop })
  | .step keys => do
      let (runner, machine) ← d.runner.step d.machine keys
      return (none, ⟨runner, machine⟩)
  | .update span keys => do
      let (count, runner, machine) ← d.runner.update d.machine span keys
      return (some count, ⟨runner, machine⟩)

variable {σ : Type} [Host (StateM σ)]

/-- What a call gives back on a host, and what it leaves behind. -/
def answer (d : Driven α) (c : Runner.Call × σ) : Option UInt32 × Driven α :=
  ((d.call c.1 : StateM σ _).run c.2).1

/-- What a sequence of calls leaves behind. -/
def after (d : Driven α) (calls : List (Runner.Call × σ)) : Driven α :=
  calls.foldl (fun d c => (d.answer c).2) d

/-- The numbers that a sequence of calls gives back. -/
def counts : Driven α → List (Runner.Call × σ) → List UInt32
  | _, [] => []
  | d, c :: calls => (d.answer c).1.toList ++ counts (d.answer c).2 calls

/-- Whether a call is for a single step and finds the runner not running. -/
def isSingle (d : Driven α) : Runner.Call → Bool
  | .step _ => !d.runner.isRunning
  | _ => false

/-- How many calls of a sequence are for a single step and find the runner not running. -/
def singles : Driven α → List (Runner.Call × σ) → Nat
  | _, [] => 0
  | d, c :: calls => (if d.isSingle c.1 then 1 else 0) + singles (d.answer c).2 calls

/-- What the steps of a call take from outside. -/
def callInputs (d : Driven α) (c : Runner.Call × σ) : List StepInputs :=
  match c.1 with
  | .start | .stop => []
  | .step keys => d.runner.singleInputs keys c.2
  | .update span keys => d.runner.frameInputs d.machine span keys c.2

/-- What the steps of a sequence of calls take from outside, in order. -/
def inputs : Driven α → List (Runner.Call × σ) → List StepInputs
  | _, [] => []
  | d, c :: calls => d.callInputs c ++ inputs (d.answer c).2 calls

/-! ## Single calls -/

section

variable (d : Driven α) (host : σ)

theorem answer_step (keys : HeldKeys) :
    d.answer (.step keys, host) =
      (none, if d.runner.isRunning then d else
        ⟨{ d.runner with status := .stepped },
          d.machine.run (stepInputsOn keys false 1 host)⟩) := by
  rw [answer, call, Runner.step]
  cases d.runner.isRunning with
  | true => rfl
  | false =>
    simp only [Machine.cycle_eq_map_run]
    rfl

theorem answer_update (span : Nat) (keys : HeldKeys) :
    d.answer (.update span keys, host) =
      (some (d.runner.frame span d.machine.isLooping).1.count,
        ⟨(d.runner.frame span d.machine.isLooping).2,
          d.machine.run (d.runner.frameInputs d.machine span keys host)⟩) := by
  rw [answer, call, Runner.update_eq_map]
  rfl

/-- An update that does not let the machine run counts nothing and leaves the machine alone. -/
theorem answer_update_of_not_lets (h : ¬ d.runner.Lets d.machine.isLooping) (span : Nat)
    (keys : HeldKeys) :
    (d.answer (.update span keys, host)).1 = some 0 ∧
      (d.answer (.update span keys, host)).2.machine = d.machine := by
  have hidle := (Runner.frame_of_not_lets h span).1
  have hnone : d.runner.frameInputs d.machine span keys host = [] := by
    rw [Runner.frameInputs, hidle]
    rfl
  rw [answer_update, hnone, hidle]
  exact ⟨rfl, rfl⟩

/-- The steps of a call are a run of the machine. -/
theorem machine_answer (c : Runner.Call × σ) :
    (d.answer c).2.machine = d.machine.run (d.callInputs c) := by
  obtain ⟨c, host⟩ := c
  cases c with
  | start => rfl
  | stop => rfl
  | step keys =>
    show _ = d.machine.run (d.runner.singleInputs keys host)
    rw [answer_step, Runner.singleInputs]
    split
    · rfl
    · rfl
  | update span keys =>
    rw [answer_update]
    rfl

/-- A call makes the steps that it counts, and one if it is for a single step of a machine that is
not running. -/
theorem length_callInputs (c : Runner.Call × σ) :
    (d.callInputs c).length =
      ((d.answer c).1.toList.map UInt32.toNat).sum + if d.isSingle c.1 then 1 else 0 := by
  obtain ⟨c, host⟩ := c
  cases c with
  | start => rfl
  | stop => rfl
  | step keys =>
    show (d.runner.singleInputs keys host).length = _
    rw [answer_step, Runner.singleInputs, isSingle]
    cases d.runner.isRunning with
    | true => rfl
    | false => exact length_stepInputs keys false 1 host
  | update span keys =>
    rw [answer_update]
    simp only [isSingle, Bool.false_eq_true, if_false, Option.toList_some, List.map_cons,
      List.map_nil, List.sum_singleton, Nat.add_zero]
    exact length_stepInputs keys _ _ host

end

/-! ## Sequences of calls -/

theorem after_cons (d : Driven α) (c : Runner.Call × σ) (calls : List (Runner.Call × σ)) :
    d.after (c :: calls) = (d.answer c).2.after calls := rfl

theorem after_append_singleton (d : Driven α) (calls : List (Runner.Call × σ))
    (c : Runner.Call × σ) : d.after (calls ++ [c]) = ((d.after calls).answer c).2 :=
  List.foldl_append

theorem machine_after (d : Driven α) (calls : List (Runner.Call × σ)) :
    (d.after calls).machine = d.machine.run (d.inputs calls) := by
  induction calls generalizing d with
  | nil => rfl
  | cons c calls ih => rw [after_cons, ih, machine_answer, inputs, Machine.run_append]

theorem length_inputs (d : Driven α) (calls : List (Runner.Call × σ)) :
    (d.inputs calls).length = ((d.counts calls).map UInt32.toNat).sum + d.singles calls := by
  induction calls generalizing d with
  | nil => rfl
  | cons c calls ih =>
    have hfirst := d.length_callInputs c
    have hrest := ih (d.answer c).2
    rw [inputs, counts, singles, List.length_append, List.map_append, List.sum_append]
    omega

end Driven

/-! ## What the status tells -/

/-- `c` gives the status to what it finds. -/
inductive Runner.Call.Gives {α : Type} (d : Driven α) : Runner.Call → Runner.Status → Prop where
  | start : Gives d .start .running
  | stop : Gives d .stop (.halted .user)
  | step (keys : HeldKeys) : d.runner.isRunning = false → Gives d (.step keys) .stepped
  /-- An update that detects a loop. -/
  | update (span : Nat) (keys : HeldKeys) : d.runner.isRunning = true →
      d.runner.detectLoop = true → d.machine.isLooping = true →
        Gives d (.update span keys) (.halted .loopDetected)

namespace Driven

variable {α σ : Type} [PaceNumber α] [Host (StateM σ)]

/-- A call gives the status that it leaves behind, or has left it as it was. -/
theorem gives_or_status_eq (d : Driven α) (c : Runner.Call × σ) :
    c.1.Gives d (d.answer c).2.runner.status ∨
      (d.answer c).2.runner.status = d.runner.status := by
  obtain ⟨c, host⟩ := c
  cases c with
  | start => exact .inl .start
  | stop => exact .inl .stop
  | step keys =>
    rw [answer_step]
    cases hrun : d.runner.isRunning with
    | true => exact .inr rfl
    | false => exact .inl (.step keys hrun)
  | update span keys =>
    rw [answer_update]
    by_cases hrun : d.runner.isRunning = true
    · by_cases hloop : (d.runner.detectLoop && d.machine.isLooping) = true
      · obtain ⟨hdetect, hlooping⟩ := Bool.and_eq_true_iff.1 hloop
        left
        rw [Runner.frame, if_pos hrun, hloop]
        exact .update span keys hrun hdetect hlooping
      · right
        simp only [Runner.frame, if_pos hrun, if_neg hloop]
    · right
      simp only [Runner.frame, if_neg hrun]

/-- `c` is the latest of the calls that has changed the status, and `e` is what it found. -/
inductive LatestChange (d : Driven α) : List (Runner.Call × σ) → Driven α → Runner.Call → Prop where
  | change {calls : List (Runner.Call × σ)} {c : Runner.Call} {host : σ} :
      (d.after (calls ++ [(c, host)])).runner.status ≠ (d.after calls).runner.status →
        LatestChange d (calls ++ [(c, host)]) (d.after calls) c
  | keep {calls : List (Runner.Call × σ)} {e : Driven α} {c : Runner.Call}
      {other : Runner.Call × σ} :
      (d.after (calls ++ [other])).runner.status = (d.after calls).runner.status →
        LatestChange d calls e c → LatestChange d (calls ++ [other]) e c

/-- No call of a sequence changes the status. -/
def KeepsStatus (d : Driven α) (calls : List (Runner.Call × σ)) : Prop :=
  ∀ k ≤ calls.length, (d.after (calls.take k)).runner.status = d.runner.status

theorem KeepsStatus.status_eq {d : Driven α} {calls : List (Runner.Call × σ)}
    (h : d.KeepsStatus calls) : (d.after calls).runner.status = d.runner.status := by
  have hall := h calls.length (Nat.le_refl _)
  rwa [List.take_length] at hall

theorem KeepsStatus.append_singleton {d : Driven α} {calls : List (Runner.Call × σ)}
    {c : Runner.Call × σ} (h : d.KeepsStatus calls)
    (hkeep : (d.after (calls ++ [c])).runner.status = (d.after calls).runner.status) :
    d.KeepsStatus (calls ++ [c]) := by
  intro k hk
  rw [List.length_append, List.length_singleton] at hk
  rcases Nat.lt_or_eq_of_le hk with hlt | rfl
  · rw [List.take_append_of_le_length (Nat.le_of_lt_succ hlt)]
    exact h k (Nat.le_of_lt_succ hlt)
  · rw [← List.length_singleton (a := c), ← List.length_append, List.take_length, hkeep]
    exact h.status_eq

/-- Unless no call has changed the status, the latest one that has gives it. -/
theorem keepsStatus_or_latestChange (d : Driven α) (calls : List (Runner.Call × σ)) :
    d.KeepsStatus calls ∨
      ∃ e c, d.LatestChange calls e c ∧ c.Gives e (d.after calls).runner.status := by
  induction calls using List.reverseRecOn with
  | nil =>
    left
    intro k _
    rw [List.take_nil]
    rfl
  | append_singleton calls c ih =>
    by_cases hkeep : (d.after (calls ++ [c])).runner.status = (d.after calls).runner.status
    · rcases ih with hkept | ⟨e, c', hlatest, hgives⟩
      · exact .inl (hkept.append_singleton hkeep)
      · rw [← hkeep] at hgives
        exact .inr ⟨e, c', .keep hkeep hlatest, hgives⟩
    · right
      refine ⟨d.after calls, c.1, .change hkeep, ?_⟩
      rw [d.after_append_singleton calls c] at hkeep ⊢
      exact ((d.after calls).gives_or_status_eq c).resolve_right hkeep

end Driven

/-- The steps of a machine are accounted for, whatever its runner is called for. After any sequence
of calls, the machine is the one after as many steps as the updates have counted and the single
steps called for while the runner was not running, and no others. An update while the runner is not
running, a single step while it is running and an update that detects a loop leave the machine
alone. And unless no call has changed the status, it tells what kind of call has changed it last. -/
theorem calls_account_for_steps {α σ : Type} [PaceNumber α] [Host (StateM σ)] (d : Driven α)
    (calls : List (Runner.Call × σ)) :
    let left := d.after calls
    (left.machine = d.machine.run (d.inputs calls) ∧
        (d.inputs calls).length = ((d.counts calls).map UInt32.toNat).sum + d.singles calls) ∧
      (∀ (e : Driven α) (host : σ),
        (∀ span keys, e.runner.status ≠ .running →
          (e.answer (.update span keys, host)).1 = some 0 ∧
            (e.answer (.update span keys, host)).2.machine = e.machine) ∧
        (∀ keys, e.runner.status = .running → (e.answer (.step keys, host)).2 = e) ∧
        (∀ span keys, e.runner.status = .running → e.runner.detectLoop = true →
          e.machine.isLooping = true →
            (e.answer (.update span keys, host)).1 = some 0 ∧
              (e.answer (.update span keys, host)).2.machine = e.machine ∧
              (e.answer (.update span keys, host)).2.runner.status = .halted .loopDetected)) ∧
      (d.KeepsStatus calls ∨
        (left.runner.status = .running → ∃ e, d.LatestChange calls e .start) ∧
        (left.runner.status = .stepped → ∃ e keys, d.LatestChange calls e (.step keys)) ∧
        (left.runner.status = .halted .user → ∃ e, d.LatestChange calls e .stop) ∧
        (left.runner.status = .halted .loopDetected → ∃ e span keys,
          d.LatestChange calls e (.update span keys) ∧ e.runner.status = .running ∧
            e.runner.detectLoop = true ∧ e.machine.isLooping = true) ∧
        left.runner.status ≠ .halted .idle) := by
  intro left
  refine ⟨⟨d.machine_after calls, d.length_inputs calls⟩, fun e host => ⟨?_, ?_, ?_⟩, ?_⟩
  · intro span keys hstatus
    apply Driven.answer_update_of_not_lets
    rintro ⟨hrun, -⟩
    exact hstatus (of_decide_eq_true hrun)
  · intro keys hstatus
    have hrun : e.runner.isRunning = true := decide_eq_true hstatus
    rw [e.answer_step, if_pos hrun]
  · intro span keys hstatus hdetect hloop
    have hrun : e.runner.isRunning = true := decide_eq_true hstatus
    have halone := e.answer_update_of_not_lets host (fun h => h.2 ⟨hdetect, hloop⟩) span keys
    refine ⟨halone.1, halone.2, ?_⟩
    rw [e.answer_update, Runner.frame, if_pos hrun, hdetect, hloop]
    rfl
  · rcases d.keepsStatus_or_latestChange calls with hkept | ⟨e, c, hlatest, hgives⟩
    · exact .inl hkept
    · right
      generalize hstatus : left.runner.status = status
      rw [show (d.after calls).runner.status = status from hstatus] at hgives
      -- The call gives one status, so that nothing is claimed of the other ones.
      cases hgives with
      | start => simpa using ⟨e, hlatest⟩
      | stop => simpa using ⟨e, hlatest⟩
      | step keys _ => simpa using ⟨e, keys, hlatest⟩
      | update span keys hrun hdetect hloop =>
        have hfound : e.runner.status = .running := of_decide_eq_true hrun
        simpa using ⟨e, ⟨span, keys, hlatest⟩, hfound, hdetect, hloop⟩

/-- A runner that has not been started, for a machine that comes to a loop with its third
instruction. -/
def notStarted : Driven Rat := ⟨threeAFrame, delayThenJump⟩

/-- A single step, another one that is not made since the runner is running, a frame, an update that
detects the loop, and one after it. -/
def mixedCalls : List (Runner.Call × Tape) :=
  [(.step Keypad.none, ⟨5, fun _ => 1, fun _ => 0⟩), (.start, ⟨6, fun _ => 1, fun _ => 0⟩),
    (.step Keypad.none, ⟨7, fun _ => 1, fun _ => 0⟩),
    (.update 16667000 Keypad.none, ⟨16667007, fun _ => 1, fun _ => 0⟩),
    (.update 16667000 Keypad.none, ⟨33334007, fun _ => 1, fun _ => 0⟩),
    (.update 16667000 Keypad.none, ⟨50001007, fun _ => 1, fun _ => 0⟩)]

theorem mixedCalls_accounted :
    notStarted.runner.status = .halted .idle ∧ notStarted.counts mixedCalls = [3, 0, 0] ∧
      notStarted.singles mixedCalls = 1 ∧ (notStarted.inputs mixedCalls).length = 4 ∧
      (notStarted.after mixedCalls).machine =
        notStarted.machine.run (notStarted.inputs mixedCalls) ∧
      (notStarted.after mixedCalls).runner.status = .halted .loopDetected ∧
      ∃ e span keys, notStarted.LatestChange mixedCalls e (.update span keys) ∧
        e.runner.status = .running ∧ e.runner.detectLoop = true ∧ e.machine.isLooping = true := by
  have hcounts : notStarted.counts mixedCalls = [3, 0, 0] := by decide +kernel
  have hsingles : notStarted.singles mixedCalls = 1 := by decide +kernel
  have hstatus : (notStarted.after mixedCalls).runner.status = .halted .loopDetected := by
    decide +kernel
  obtain ⟨⟨hmachine, hlength⟩, -, htells⟩ := calls_account_for_steps notStarted mixedCalls
  rw [hcounts, hsingles] at hlength
  refine ⟨rfl, hcounts, hsingles, hlength, hmachine, hstatus, ?_⟩
  rcases htells with hkept | ⟨-, -, -, hloop, -⟩
  · exact absurd (hstatus.symm.trans hkept.status_eq) (by decide)
  · exact hloop hstatus

end Chip8
