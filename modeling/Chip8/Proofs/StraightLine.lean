import Chip8.Monitor
import Chip8.Proofs.ProgramCounter

/-!
# Listings as forecasts

A listing reads memory ahead of the program counter, two bytes a row, and a run fetches as it goes.
As long as no instruction branches and none writes to memory, the two agree: a step moves the
program counter to the next row, and the rest of the listing still shows what is in memory
(`Machine.trace_of_straight`). Addresses wrap around in both, the cells at the end of memory and the
program counter after the largest word.

To produce a listing is a use of the machine that leaves it as it is (`Monitor.withMachine_of_keeps`).
-/

set_option autoImplicit false

namespace Chip8

/-- The operations that write to memory. -/
def Opcode.stores : List Opcode := [.storeDigits, .storeRegisters]

/-- The operations that neither branch nor write to memory. -/
def Opcode.Straight (op : Opcode) : Prop := op ∉ branches ∧ op ∉ stores

instance (op : Opcode) : Decidable op.Straight := inferInstanceAs (Decidable (_ ∧ _))

namespace Machine

theorem memory_step {m : Machine} (i : StepInputs) (h : m.next.opcode ∉ Opcode.stores) :
    (m.step i).state.memory = m.state.memory := by
  rw [step_state]
  exact (State.execute_writesOnly _ i.toInputs m.next).memory h

/-- The row at the program counter shows the next instruction. -/
theorem instruction_listingRow (m : Machine) :
    (m.state.listingRow m.state.pc).instruction = m.next := rfl

/-- Instructions that are listed as straight are executed as they are listed. -/
theorem trace_of_straight {m : Machine} {is : List StepInputs}
    (h : ∀ row ∈ m.state.listing m.state.pc is.length, row.instruction.opcode.Straight) :
    m.trace is = (m.state.listing m.state.pc is.length).map ListingRow.instruction ∧
      (m.run is).state.pc = m.state.pc + 2 * UInt16.ofNat is.length := by
  induction is generalizing m with
  | nil => exact ⟨rfl, (UInt16.add_zero _).symm⟩
  | cons i is ih =>
    rw [List.length_cons, State.listing_succ, List.forall_mem_cons, instruction_listingRow] at h
    obtain ⟨⟨hbranch, hstore⟩, hrest⟩ := h
    have hpc : (m.step i).state.pc = m.state.pc + 2 := by
      rw [pc_step, State.successor_of_not_mem_branches _ _ hbranch]
    -- What is left of the listing is the listing from the new program counter.
    have hlisting : (m.step i).state.listing (m.step i).state.pc is.length =
        m.state.listing (m.state.pc + 2) is.length := by
      rw [hpc]
      exact State.listing_congr (memory_step i hstore) _ _
    rw [← hlisting] at hrest
    obtain ⟨htrace, hrun⟩ := ih hrest
    constructor
    · rw [trace, step_last, htrace, hlisting, List.length_cons, State.listing_succ, List.map_cons,
        instruction_listingRow]
    · rw [run_cons, hrun, hpc, List.length_cons, UInt16.ofNat_add, UInt16.mul_add,
        UInt16.add_assoc, UInt16.add_comm 2]
      rfl

end Machine

/-- A listing from the program counter forecasts a run of as many steps. If it shows no branch and
no instruction that writes to memory, then with any keys, at any time and with any random bytes the
steps execute the rows in order, and the program counter ends behind the last row. To list the
memory of a machine through a monitor, from any address on and with any number of rows, gives the
listing of its state and leaves all machines as they were. -/
theorem listing_forecasts_run (m : Machine) :
    (∀ is : List StepInputs,
      let rows := m.state.listing m.state.pc is.length
      (∀ row ∈ rows, row.instruction.opcode ∉ Opcode.branches ∧
          row.instruction.opcode ∉ Opcode.stores) →
        (∀ k row, rows[k]? = some row → (m.run (is.take (k + 1))).last = row.instruction) ∧
          m.trace is = rows.map ListingRow.instruction ∧
          (m.run is).state.pc.toNat = (m.state.pc.toNat + 2 * is.length) % 65536) ∧
      ∀ (d : Monitor) (pool : Pool) (id : MachineId), d.access pool = .ok (id, m) →
        ∀ start count,
          d.read pool (·.listing start count) = .ok (m.state.listing start count) ∧
            d.withMachine pool (fun machine => (machine.state.listing start count, machine)) =
              (.ok (m.state.listing start count), pool) := by
  constructor
  · intro is rows hstraight
    obtain ⟨htrace, hpc⟩ := Machine.trace_of_straight hstraight
    refine ⟨fun k row hrow => ?_, htrace, ?_⟩
    · apply Machine.last_of_getElem?_trace
      rw [htrace, List.getElem?_map, hrow]
      rfl
    · rw [hpc, UInt16.toNat_add, UInt16.toNat_mul, UInt16.toNat_ofNat']
      show (m.state.pc.toNat + 2 * (is.length % 65536) % 65536) % 65536 = _
      omega
  · intro d pool id haccess start count
    have huse : d.withMachine pool (fun machine => (machine.state.listing start count, machine)) =
        (.ok (m.state.listing start count), pool) := Monitor.withMachine_of_keeps haccess rfl
    refine ⟨?_, huse⟩
    rw [Monitor.read_eq_withMachine, huse]

/-- A machine whose next instruction, `LD VA, 3C`, is in the last two cells of memory, at the largest
even address. The word after it is in the first two cells and stands for no operation. -/
def Machine.acrossTheEnd : Machine :=
  { Machine.new with
    state :=
      { State.initial with
        pc := 0xFFFE
        memory := Memory.blank.writeBytes 0xFFFE [0x6A, 0x3C] } }

/-- Listing and run both go on at the first address after the last one. -/
theorem listing_forecasts_run_across_the_end :
    let m := Machine.acrossTheEnd
    let inputs : List StepInputs := List.replicate 2 ⟨⟨Keypad.none, 0⟩, 0, false⟩
    let monitor : Monitor := ⟨some 0⟩
    let pool := (Pool.empty.add m).2
    m.trace inputs = [⟨.loadByte, ⟨0xA, 0x3, 0xC⟩⟩, .noop] ∧ (m.run inputs).state.pc.toNat = 2 ∧
      (monitor.withMachine pool fun machine => (machine.state.listing 0xFFFE 2, machine)) =
        (.ok (m.state.listing 0xFFFE 2), pool) := by
  intro m inputs monitor pool
  have hrows : (m.state.listing m.state.pc 2).map ListingRow.instruction =
      [⟨.loadByte, ⟨0xA, 0x3, 0xC⟩⟩, .noop] := by
    decide +kernel
  have hstraight : ∀ instruction ∈ (m.state.listing m.state.pc 2).map ListingRow.instruction,
      instruction.opcode ∉ Opcode.branches ∧ instruction.opcode ∉ Opcode.stores := by
    rw [hrows]
    decide
  obtain ⟨-, htrace, hpc⟩ := (listing_forecasts_run m).1 inputs (List.forall_mem_map.1 hstraight)
  have haccess : monitor.access pool = .ok (0, m) := rfl
  exact ⟨htrace.trans hrows, hpc.trans (by decide +kernel),
    ((listing_forecasts_run m).2 monitor pool 0 haccess 0xFFFE 2).2⟩

end Chip8
