import Chip8.Proofs.Frame
import Chip8.Proofs.Run
import Mathlib.Data.List.Infix
import Mathlib.Data.List.MinMax
import Mathlib.Order.Lattice.Nat

/-!
# Nested subroutine calls

A sequence of executed instructions is balanced if no prefix has more returns than calls and the
whole has as many. Nothing guards the stack: its pointer is a byte, and the slots are used modulo
sixteen. A balanced sequence nevertheless keeps its discipline as long as at most sixteen calls are
open at a time and the pointer stays a byte (`balanced_run_returns`).

The induction is on the run. As long as the number of open calls stays between 0 and a bound, the
pointer follows that number, and only the slots within the bound above the first pointer are
written (`Machine.stack_of_depth_le`). Between a call and its return this leaves the call's own slot
alone.
-/

set_option autoImplicit false

namespace Chip8

/-! ## Depth of a sequence of instructions -/

section

/-- Calls minus returns. -/
def depth (t : List Instruction) : Int :=
  (t.countP fun i => i.opcode = .call : Nat) - (t.countP fun i => i.opcode = .ret : Nat)

/-- No prefix has more returns than calls, and the whole has as many. -/
structure Balanced (t : List Instruction) : Prop where
  depth_nonneg : ∀ p, p <+: t → 0 ≤ depth p
  depth_eq : depth t = 0

theorem balanced_iff {t : List Instruction} :
    Balanced t ↔ (∀ p ∈ t.inits, 0 ≤ depth p) ∧ depth t = 0 := by
  constructor
  · rintro ⟨hnonneg, heq⟩
    exact ⟨fun p hp => hnonneg p ((List.mem_inits p t).1 hp), heq⟩
  · rintro ⟨hnonneg, heq⟩
    exact ⟨fun p hp => hnonneg p ((List.mem_inits p t).2 hp), heq⟩

instance (t : List Instruction) : Decidable (Balanced t) := decidable_of_iff' _ balanced_iff

/-- The most calls that are open at a time. -/
def nesting (t : List Instruction) : Nat := (t.inits.map fun p => (depth p).toNat).foldr max 0

/-- The call at place `i` is the one that the return at place `j` ends: the instructions between
them are balanced. -/
structure Matches (t : List Instruction) (i j : Nat) : Prop where
  lt : i < j
  call : ∃ c, t[i]? = some c ∧ c.opcode = .call
  ret : ∃ r, t[j]? = some r ∧ r.opcode = .ret
  between : Balanced ((t.take j).drop (i + 1))

@[simp]
theorem depth_nil : depth [] = 0 := rfl

theorem depth_append (t u : List Instruction) : depth (t ++ u) = depth t + depth u := by
  simp only [depth, List.countP_append]
  omega

theorem depth_singleton (i : Instruction) :
    depth [i] = if i.opcode = .call then 1 else if i.opcode = .ret then -1 else 0 := by
  by_cases hcall : i.opcode = .call
  · simp [depth, hcall]
  · by_cases hret : i.opcode = .ret <;> simp [depth, hcall, hret]

theorem depth_take_succ {t : List Instruction} {k : Nat} {i : Instruction} (h : t[k]? = some i) :
    depth (t.take (k + 1)) = depth (t.take k) + depth [i] := by
  rw [List.take_add_one, h, depth_append]
  rfl

theorem depth_le_nesting {t p : List Instruction} (h : p <+: t) : depth p ≤ nesting t := by
  have hmem : (depth p).toNat ∈ t.inits.map fun p => (depth p).toNat :=
    List.mem_map.2 ⟨p, (List.mem_inits p t).2 h, rfl⟩
  exact Int.toNat_le.1 (List.le_max_of_le hmem (Nat.le_refl _))

/-- The depth of a part in the middle. -/
theorem depth_take_drop (t : List Instruction) {a b : Nat} (h : a ≤ b) :
    depth ((t.take b).drop a) = depth (t.take b) - depth (t.take a) := by
  have hsplit := congrArg depth (take_append_drop_take t h)
  rw [depth_append] at hsplit
  omega

end

/-! ## The stack along a run -/

namespace Machine

section

variable {m : Machine} (i : StepInputs)

theorem step_of_call (h : m.next.opcode = .call) :
    (m.step i).state.sp = m.state.sp + 1 ∧
      (m.step i).state.stack = m.state.stack.set (Nibble.ofByte (m.state.sp + 1)) m.state.pc := by
  rw [step_state, State.execute, h]
  exact ⟨rfl, rfl⟩

theorem step_of_ret (h : m.next.opcode = .ret) :
    (m.step i).state.sp = (if m.state.sp = 0 then 0 else m.state.sp - 1) ∧
      (m.step i).state.stack = m.state.stack ∧
      (m.step i).state.pc = m.state.stack.get m.state.slot + 2 := by
  rw [step_state, State.execute, h]
  exact ⟨rfl, rfl, rfl⟩

theorem step_of_other (hcall : m.next.opcode ≠ .call) (hret : m.next.opcode ≠ .ret) :
    (m.step i).state.sp = m.state.sp ∧ (m.step i).state.stack = m.state.stack := by
  rw [step_state]
  exact State.execute_stack_frame _ i.toInputs hcall hret

theorem toNat_sp_of_call (h : m.next.opcode = .call) (hsp : m.state.sp.toNat < 255) :
    (m.step i).state.sp.toNat = m.state.sp.toNat + 1 := by
  rw [(step_of_call i h).1, UInt8.toNat_add]
  show (m.state.sp.toNat + 1) % 256 = _
  omega

theorem toNat_sp_of_ret (h : m.next.opcode = .ret) (hsp : 0 < m.state.sp.toNat) :
    (m.step i).state.sp.toNat = m.state.sp.toNat - 1 := by
  have hone : 1 ≤ m.state.sp := UInt8.le_iff_toNat_le.2 hsp
  have hpos : m.state.sp ≠ 0 := by
    intro hzero
    rw [hzero] at hsp
    exact absurd hsp (by decide)
  rw [(step_of_ret i h).1, if_neg hpos, UInt8.toNat_sub_of_le _ _ hone]
  rfl

/-- A step adds the depth of its instruction to the stack pointer unless that leaves the range of a
byte. -/
theorem toNat_sp_step (hlow : 0 ≤ m.state.sp.toNat + depth [m.next])
    (hhigh : m.state.sp.toNat + depth [m.next] ≤ 255) :
    ((m.step i).state.sp.toNat : Int) = m.state.sp.toNat + depth [m.next] := by
  rw [depth_singleton] at hlow hhigh ⊢
  by_cases hcall : m.next.opcode = .call
  · rw [if_pos hcall] at hhigh ⊢
    have hsp := toNat_sp_of_call i hcall (by omega)
    omega
  · rw [if_neg hcall] at hlow ⊢
    by_cases hret : m.next.opcode = .ret
    · rw [if_pos hret] at hlow ⊢
      have hsp := toNat_sp_of_ret i hret (by omega)
      omega
    · rw [if_neg hret, (step_of_other i hcall hret).1]
      omega

/-- A step writes at most the slot that a call takes. -/
theorem stack_step (q : Nibble) (hq : m.next.opcode = .call → q.val ≠ (m.state.sp.toNat + 1) % 16) :
    (m.step i).state.stack.get q = m.state.stack.get q := by
  by_cases hcall : m.next.opcode = .call
  · have hslot : Nibble.ofByte (m.state.sp + 1) ≠ q := by
      rintro rfl
      apply hq hcall
      -- A byte wraps around at a multiple of the number of slots.
      show (m.state.sp + 1).toNat % 16 = _
      rw [UInt8.toNat_add]
      show (m.state.sp.toNat + 1) % 256 % 16 = _
      omega
    rw [(step_of_call i hcall).2, Cells.get_set_of_ne _ _ hslot]
  · by_cases hret : m.next.opcode = .ret
    · rw [(step_of_ret i hret).2.1]
    · rw [(step_of_other i hcall hret).2]

end

/-- While the depth stays between 0 and `d`, the stack pointer follows it, and of the stack only the
`d` slots above the first pointer are written. -/
theorem stack_of_depth_le {m : Machine} {d : Nat} (hd : m.state.sp.toNat + d ≤ 255)
    (is : List StepInputs) (hdepth : ∀ p, p <+: m.trace is → 0 ≤ depth p ∧ depth p ≤ d) :
    ((m.run is).state.sp.toNat : Int) = m.state.sp.toNat + depth (m.trace is) ∧
      ∀ q : Nibble, (∀ e, 1 ≤ e → e ≤ d → q.val ≠ (m.state.sp.toNat + e) % 16) →
        (m.run is).state.stack.get q = m.state.stack.get q := by
  -- From the right, as the bound is on the depth since the start of the run.
  induction is using List.reverseRecOn with
  | nil => simp [trace]
  | append_singleton is i ih =>
    have htrace : m.trace (is ++ [i]) = m.trace is ++ [(m.run is).next] := by
      rw [trace_append, trace, trace, step_last]
    have hprefix : m.trace is <+: m.trace (is ++ [i]) := by
      rw [htrace]
      exact List.prefix_append _ _
    obtain ⟨hsp, hstack⟩ := ih fun p hp => hdepth p (hp.trans hprefix)
    have hbefore := hdepth _ hprefix
    have hafter := hdepth _ (List.prefix_refl _)
    rw [htrace, depth_append] at hafter
    have hsp' := (m.run is).toNat_sp_step i (by omega) (by omega)
    rw [run_append, run_cons, run_nil, htrace, depth_append]
    refine ⟨by omega, fun q hq => ?_⟩
    rw [← hstack q hq]
    apply stack_step i q
    intro hcall heq
    -- A call takes the slot that lies one more than the depth above the first pointer.
    rw [depth_singleton, if_pos hcall] at hafter
    apply hq (depth (m.trace is) + 1).toNat (by omega) (by omega)
    rw [heq]
    congr 1
    omega

/-- A balanced run that opens at most fifteen calls at a time leaves the stack pointer and the slot
that it names as they were. -/
theorem slot_of_balanced {m : Machine} {d : Nat} (hd : m.state.sp.toNat + d ≤ 255) (hfew : d ≤ 15)
    (is : List StepInputs) (hbal : Balanced (m.trace is))
    (hdepth : ∀ p, p <+: m.trace is → depth p ≤ d) :
    (m.run is).state.sp = m.state.sp ∧
      (m.run is).state.stack.get m.state.slot = m.state.stack.get m.state.slot := by
  obtain ⟨hsp, hstack⟩ :=
    stack_of_depth_le hd is fun p hp => ⟨hbal.depth_nonneg p hp, hdepth p hp⟩
  rw [hbal.depth_eq] at hsp
  refine ⟨UInt8.toNat_inj.1 (by omega), hstack _ fun e hone he => ?_⟩
  show m.state.sp.toNat % 16 ≠ _
  omega

end Machine

/-! ## Matching calls -/

/-- A sequence that starts below a bound and reaches it has a last place below it. -/
theorem exists_last_lt {f : Nat → Int} {c : Int} (hzero : f 0 < c) :
    ∀ j, c ≤ f j → ∃ i < j, f i < c ∧ ∀ l, i < l → l ≤ j → c ≤ f l
  | 0, hj => absurd hzero (by omega)
  | j + 1, hj => by
    by_cases hlt : f j < c
    · refine ⟨j, by omega, hlt, fun l hl hl' => ?_⟩
      obtain rfl : l = j + 1 := by omega
      exact hj
    · obtain ⟨i, hij, hi, hlast⟩ := exists_last_lt hzero j (by omega)
      refine ⟨i, by omega, hi, fun l hl hl' => ?_⟩
      rcases Nat.lt_or_ge j l with hlj | hlj
      · obtain rfl : l = j + 1 := by omega
        exact hj
      · exact hlast l hl hlj

/-- In a balanced sequence every return has a matching call: the last one before it at which the
depth was lower. -/
theorem Balanced.exists_matches {t : List Instruction} (h : Balanced t) {j : Nat} {r : Instruction}
    (hj : t[j]? = some r) (hr : r.opcode = .ret) : ∃ i, Matches t i j := by
  have hlen : j < t.length := (List.getElem?_eq_some_iff.1 hj).1
  have hret : depth (t.take (j + 1)) = depth (t.take j) - 1 := by
    rw [depth_take_succ hj, depth_singleton, hr]
    rfl
  have hpos : 0 < depth (t.take j) := by
    have hafter := h.depth_nonneg _ (List.take_prefix (j + 1) t)
    omega
  obtain ⟨i, hij, hi, hlast⟩ :=
    exists_last_lt (f := fun l => depth (t.take l)) (by simpa using hpos) j (Int.le_refl _)
  have hnext := hlast (i + 1) (by omega) (by omega)
  have hc : t[i]? = some t[i] := List.getElem?_eq_getElem (by omega)
  have hstep := depth_take_succ hc
  rw [depth_singleton] at hstep
  -- Only a call makes the depth grow.
  have hcall : t[i].opcode = .call := by
    by_contra hne
    rw [if_neg hne] at hstep
    split at hstep <;> omega
  rw [if_pos hcall] at hstep
  refine ⟨i, hij, ⟨_, hc, hcall⟩, ⟨r, hj, hr⟩, ?_, ?_⟩
  · -- From the call up to the return the depth never falls below that after the call.
    intro p hp
    have hle : p.length ≤ j - (i + 1) := by
      have := hp.length_le
      rw [List.length_drop, List.length_take] at this
      omega
    rw [List.prefix_iff_eq_take.1 hp, List.take_drop, List.take_take,
      depth_take_drop _ (by omega)]
    have hprefix := hlast (min (i + 1 + p.length) j) (by omega) (by omega)
    omega
  · rw [depth_take_drop _ (by omega)]
    omega

/-- The depth of a part in the middle comes on top of the depth before it. -/
theorem depth_add_le_nesting {t p : List Instruction} {i j : Nat} (hij : i ≤ j)
    (hp : p <+: (t.take j).drop i) : depth (t.take i) + depth p ≤ nesting t := by
  have hprefix : t.take i ++ p <+: t := by
    have htake := (List.prefix_append_right_inj (t.take i)).2 hp
    rw [take_append_drop_take t hij] at htake
    exact htake.trans (List.take_prefix j t)
  rw [← depth_append]
  exact depth_le_nesting hprefix

namespace Machine

/-- In a balanced run that leaves the stack pointer room, the pointer follows the depth. -/
theorem toNat_sp_take {m : Machine} {is : List StepInputs} (hbal : Balanced (m.trace is))
    (hsp : m.state.sp.toNat + nesting (m.trace is) ≤ 255) (k : Nat) :
    ((m.run (is.take k)).state.sp.toNat : Int) =
      m.state.sp.toNat + depth ((m.trace is).take k) := by
  rw [take_trace]
  refine (stack_of_depth_le hsp _ fun p hp => ?_).1
  rw [← take_trace] at hp
  have hprefix := hp.trans (List.take_prefix _ _)
  exact ⟨hbal.depth_nonneg p hprefix, depth_le_nesting hprefix⟩

/-- Between a call and its return the call's slot is left alone: it is one of at most sixteen, and
the calls in between are at most fifteen deep. -/
theorem slot_of_matches {m : Machine} {is : List StepInputs} (hbal : Balanced (m.trace is))
    (hdepth : nesting (m.trace is) ≤ 16)
    (hsp : m.state.sp.toNat + nesting (m.trace is) ≤ 255) {i j : Nat}
    (h : Matches (m.trace is) i j) :
    (m.run (is.take j)).state.sp = (m.run (is.take (i + 1))).state.sp ∧
      (m.run (is.take j)).state.stack.get (m.run (is.take (i + 1))).state.slot =
        (m.run (is.take (i + 1))).state.stack.get (m.run (is.take (i + 1))).state.slot := by
  obtain ⟨hlt, ⟨c, hc, hcall⟩, -, hbetween⟩ := h
  have hopen : 1 ≤ depth ((m.trace is).take (i + 1)) := by
    have hbefore := hbal.depth_nonneg _ (List.take_prefix i (m.trace is))
    rw [depth_take_succ hc, depth_singleton, if_pos hcall]
    omega
  have hmost := depth_le_nesting (List.take_prefix (i + 1) (m.trace is))
  have hspAfter := toNat_sp_take hbal hsp (i + 1)
  -- What is open after the call is missing from the room of the calls in between.
  have hslot := slot_of_balanced (m := m.run (is.take (i + 1)))
    (d := nesting (m.trace is) - (depth ((m.trace is).take (i + 1))).toNat)
    (by omega) (by omega) ((is.take j).drop (i + 1))
  rw [trace_between m is (by omega), run_between m is (by omega)] at hslot
  refine hslot hbetween fun p hp => ?_
  have hle := depth_add_le_nesting (by omega) hp
  omega

/-- A return goes back to its matching call. -/
theorem pc_of_matches {m : Machine} {is : List StepInputs} (hbal : Balanced (m.trace is))
    (hdepth : nesting (m.trace is) ≤ 16)
    (hsp : m.state.sp.toNat + nesting (m.trace is) ≤ 255) {i j : Nat}
    (h : Matches (m.trace is) i j) :
    (m.run (is.take (j + 1))).state.pc = (m.run (is.take i)).state.pc + 2 := by
  obtain ⟨hspRet, hstackRet⟩ := slot_of_matches hbal hdepth hsp h
  obtain ⟨-, ⟨c, hc, hcall⟩, ⟨r, hr, hret⟩, -⟩ := h
  obtain ⟨ci, hci, hcnext⟩ := next_of_getElem?_trace hc
  obtain ⟨ri, hri, hrnext⟩ := next_of_getElem?_trace hr
  rw [← hcnext] at hcall
  rw [← hrnext] at hret
  have hafter : m.run (is.take (i + 1)) = (m.run (is.take i)).step ci := by
    rw [hci, run_append, run_cons, run_nil]
  obtain ⟨hspCall, hstackCall⟩ := step_of_call ci hcall
  rw [← hafter] at hspCall hstackCall
  have hsame : (m.run (is.take j)).state.slot = (m.run (is.take (i + 1))).state.slot := by
    rw [State.slot, State.slot, hspRet]
  -- The return reads the slot that the call wrote.
  rw [hri, run_append, run_cons, run_nil, (step_of_ret ri hret).2.2, hsame, hstackRet, hstackCall,
    State.slot, hspCall, Cells.get_set_self]

end Machine

/-- Stack discipline. Take a run whose calls and returns are balanced, with at most sixteen calls
open at a time and a stack pointer that remains a byte; the other instructions may be any. The stack
pointer ends as it began. Each return has a matching call, and leaves the program counter two after
the place at which that call was fetched. -/
theorem balanced_run_returns (m : Machine) (is : List StepInputs) (hbal : Balanced (m.trace is))
    (hdepth : nesting (m.trace is) ≤ 16)
    (hsp : m.state.sp.toNat + nesting (m.trace is) ≤ 255) :
    (m.run is).state.sp = m.state.sp ∧
      ∀ j r, (m.trace is)[j]? = some r → r.opcode = .ret →
        (∃ i, Matches (m.trace is) i j) ∧
          ∀ i, Matches (m.trace is) i j →
            (m.run (is.take (j + 1))).state.pc = (m.run (is.take i)).state.pc + 2 := by
  refine ⟨?_, fun j r hj hr => ⟨hbal.exists_matches hj hr, fun i h => ?_⟩⟩
  · have hfollows := Machine.toNat_sp_take hbal hsp is.length
    rw [List.take_length, ← m.length_trace is, List.take_length, hbal.depth_eq] at hfollows
    apply UInt8.toNat_inj.1
    omega
  · exact Machine.pc_of_matches hbal hdepth hsp h

/-- A subroutine that calls another one, on a stack whose pointer stands at the last slot. -/
def nestedCalls : Machine :=
  { Machine.ofProgram [0x22, 0x04, 0x00, 0x00, 0x22, 0x08, 0x00, 0xEE, 0x00, 0xEE] (.unnamed 10) with
    state.sp := 15 }

/-- Four steps without keys. -/
def fourSteps : List StepInputs := List.replicate 4 ⟨⟨Keypad.none, 0⟩, 0, false⟩

theorem nestedCalls_returns :
    Balanced (nestedCalls.trace fourSteps) ∧ nesting (nestedCalls.trace fourSteps) ≤ 16 ∧
      nestedCalls.state.sp.toNat + nesting (nestedCalls.trace fourSteps) ≤ 255 ∧
      (nestedCalls.trace fourSteps).map (·.opcode) = [.call, .call, .ret, .ret] ∧
      (nestedCalls.run fourSteps).state.sp = nestedCalls.state.sp ∧
      ∀ j r, (nestedCalls.trace fourSteps)[j]? = some r → r.opcode = .ret →
        (∃ i, Matches (nestedCalls.trace fourSteps) i j) ∧
          ∀ i, Matches (nestedCalls.trace fourSteps) i j →
            (nestedCalls.run (fourSteps.take (j + 1))).state.pc =
              (nestedCalls.run (fourSteps.take i)).state.pc + 2 := by
  have htrace : nestedCalls.trace fourSteps =
      [⟨.call, ⟨2, 0, 4⟩⟩, ⟨.call, ⟨2, 0, 8⟩⟩, ⟨.ret, ⟨0, 0xE, 0xE⟩⟩, ⟨.ret, ⟨0, 0xE, 0xE⟩⟩] := by
    decide +kernel
  have hbal : Balanced (nestedCalls.trace fourSteps) := by
    rw [htrace]
    decide
  have hnesting : nesting (nestedCalls.trace fourSteps) = 2 := by
    rw [htrace]
    decide
  have hsp : nestedCalls.state.sp.toNat = 15 := rfl
  have hdepth : nesting (nestedCalls.trace fourSteps) ≤ 16 := by omega
  have hroom : nestedCalls.state.sp.toNat + nesting (nestedCalls.trace fourSteps) ≤ 255 := by omega
  refine ⟨hbal, hdepth, hroom, ?_, balanced_run_returns nestedCalls fourSteps hbal hdepth hroom⟩
  rw [htrace]
  rfl

end Chip8
