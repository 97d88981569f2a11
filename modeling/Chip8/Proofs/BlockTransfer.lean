import Chip8.Proofs.Footprint

/-!
# Saving and restoring registers

The registers up to `Vx` go to as many cells from the index register on. The cells are distinct also
where the block goes over the end of memory or past the largest address (`Memory.cell_add_inj`), so
each holds its register's byte (`State.read_storeRegisters`). Instructions that neither store to
memory nor set the index register leave the block where it is, whatever they do otherwise, and
loading it brings the registers back. Conversely, registers that were just loaded are stored where
they came from (`registers_saved_and_restored`).
-/

set_option autoImplicit false

namespace Chip8

namespace State

section

variable (s : State) (inputs : Inputs) (x : Nibble)

theorem execute_storeRegisters :
    s.execute inputs
        (Instruction.ofWord (wordOfBytes (byteOfNibbles 0xF x) (byteOfNibbles 0x5 0x5))) =
      s.storeRegisters x := by
  rw [Instruction.ofWord_of_fits .storeRegisters rfl rfl]
  rfl

theorem execute_loadRegisters :
    s.execute inputs
        (Instruction.ofWord (wordOfBytes (byteOfNibbles 0xF x) (byteOfNibbles 0x6 0x5))) =
      s.loadRegisters x := by
  rw [Instruction.ofWord_of_fits .loadRegisters rfl rfl]
  rfl

theorem memory_storeRegisters :
    (s.storeRegisters x).memory =
      (registersTo x).foldl (fun m r => m.write (s.i + UInt16.ofNat r.val) (s.reg r)) s.memory := by
  rw [storeRegisters]

theorem loadRegisters_eq : s.loadRegisters x = { s with v := (s.loadRegisters x).v } := by
  rw [loadRegisters]

theorem reg_loadRegisters (r : Nibble) :
    (s.loadRegisters x).reg r =
      if r ≤ x then s.memory.read (s.i + UInt16.ofNat r.val) else s.reg r := by
  rw [loadRegisters, reg, Cells.get_ofFn]

/-- A register that has been stored is found in its cell. -/
theorem read_storeRegisters {x r : Nibble} (hr : r ≤ x) :
    (s.storeRegisters x).memory.read (s.i + UInt16.ofNat r.val) = s.reg r := by
  rw [memory_storeRegisters, Memory.read]
  apply Memory.get_foldl_write_eq
  · intro q _ hcell
    have hsame : q.val = r.val := (Memory.cell_add_inj s.i (by omega) (by omega)).1 hcell
    rw [Fin.ext hsame]
  · exact .inr ⟨r, mem_registersTo.2 hr, rfl⟩

/-- Registers that have been loaded are stored where they came from. -/
theorem memory_storeRegisters_loadRegisters :
    ((s.loadRegisters x).storeRegisters x).memory = s.memory := by
  have hi : (s.loadRegisters x).i = s.i := by rw [loadRegisters_eq]
  have hmemory : (s.loadRegisters x).memory = s.memory := by rw [loadRegisters_eq]
  refine Cells.ext fun c => ?_
  rw [memory_storeRegisters, hi, hmemory]
  apply Memory.get_foldl_write_eq
  · intro q hq hcell
    rw [reg_loadRegisters, if_pos (mem_registersTo.1 hq), Memory.read, hcell]
  · exact .inl rfl

end

end State

open Instruction (HasForm)

/-- Registers can be saved and restored. After `Fx55`, any words but `Fx33`, `Fx55`, `Annn`, `Fx1E`
and `Fx29`, with any inputs, and then `Fy65` for a `y` that is not above `x`, the registers up to
`Vy` hold what they held at first, and the others what the words in between left in them. The index
register is where it was, memory is as `Fx55` left it, and each saved byte is in its cell, with
addresses modulo the memory size. And `Fx65` followed at once by `Fx55` leaves memory as it is. -/
theorem registers_saved_and_restored (s : State) :
    (∀ x y : Nibble, y ≤ x → ∀ (i j : Inputs) (ws : List (Inputs × UInt16)),
      (∀ w ∈ ws, ¬ HasForm [⟨0xF, some 0x3, some 0x3⟩, ⟨0xF, some 0x5, some 0x5⟩,
        ⟨0xA, none, none⟩, ⟨0xF, some 0x1, some 0xE⟩, ⟨0xF, some 0x2, some 0x9⟩] w.2) →
      let saved := s.execute i
        (.ofWord (wordOfBytes (byteOfNibbles 0xF x) (byteOfNibbles 0x5 0x5)))
      let t := saved.executeWords ws
      let u := t.execute j (.ofWord (wordOfBytes (byteOfNibbles 0xF y) (byteOfNibbles 0x6 0x5)))
      (∀ r ≤ y, u.reg r = s.reg r) ∧ (∀ r, y < r → u.reg r = t.reg r) ∧ u.i = s.i ∧
        u.memory = saved.memory ∧
        ∀ r ≤ x, ∀ c : Fin memorySize, c.val = (s.i.toNat + r.val) % 4096 →
          u.memory.get c = s.reg r) ∧
      ∀ (x : Nibble) (i j : Inputs),
        ((s.execute i (.ofWord (wordOfBytes (byteOfNibbles 0xF x) (byteOfNibbles 0x6 0x5)))).execute
          j (.ofWord (wordOfBytes (byteOfNibbles 0xF x) (byteOfNibbles 0x5 0x5)))).memory =
        s.memory := by
  refine ⟨fun x y hyx i j ws hws => ?_, fun x i j => ?_⟩
  · intro saved t u
    have hsaved : saved = s.storeRegisters x := s.execute_storeRegisters i x
    have hu : u = t.loadRegisters y := t.execute_loadRegisters j y
    have hops : ∀ w ∈ ws, (Instruction.ofWord w.2).opcode ∉
        [.storeDigits, .storeRegisters] ++ [.loadIndex, .advanceIndex, .loadGlyph] :=
      fun w hw hop => hws w hw ((Instruction.hasForm_filterMap_iff (by decide)).2 hop)
    have hmemory : t.memory = saved.memory :=
      saved.memory_executeWords fun w hw hop => hops w hw (List.mem_append_left _ hop)
    have hi : t.i = saved.i :=
      saved.i_executeWords fun w hw hop => hops w hw (List.mem_append_right _ hop)
    have hti : t.i = s.i := by
      rw [hi, hsaved, State.storeRegisters]
    -- The block is where the load looks for it.
    have hread : ∀ r ≤ x, t.memory.read (s.i + UInt16.ofNat r.val) = s.reg r := by
      intro r hr
      rw [hmemory, hsaved, s.read_storeRegisters hr]
    have humemory : u.memory = t.memory := by
      rw [hu, State.loadRegisters_eq]
    refine ⟨fun r hr => ?_, fun r hr => ?_, ?_, humemory.trans hmemory, fun r hr c hc => ?_⟩
    · rw [hu, State.reg_loadRegisters, if_pos hr, hti, hread r (Fin.le_trans hr hyx)]
    · rw [hu, State.reg_loadRegisters, if_neg (Fin.not_le.2 hr)]
    · rw [hu, State.loadRegisters_eq]
      exact hti
    · have hcell : Memory.cell (s.i + UInt16.ofNat r.val) = c :=
        Fin.ext ((Memory.val_cell_add _ _).trans hc.symm)
      rw [humemory, ← hcell]
      exact hread r hr
  · rw [State.execute_loadRegisters, State.execute_storeRegisters]
    exact s.memory_storeRegisters_loadRegisters x

/-- A state whose index register points at the last but one cell of memory, by the last but one
address. -/
def State.atTheEnd : State :=
  { State.initial with
    v := .ofFn fun r => 16 * UInt8.ofNat r.val + 7
    i := 0xFFFE }

/-- Five registers are saved across the end of memory, the last three over the font. In between
there are a load, a call, a draw and a key wait. The first three registers are restored. -/
theorem atTheEnd_restored :
    let s := State.atTheEnd
    let i : Inputs := ⟨Keypad.none, 0⟩
    let ws := [(i, 0xF365), (i, 0x6233), (i, 0x6344), (i, 0x2FFE), (i, 0xD12F), (i, 0xFF0A)]
    let saved := s.execute i (.ofWord (wordOfBytes (byteOfNibbles 0xF 4) (byteOfNibbles 0x5 0x5)))
    let t := saved.executeWords ws
    let u := t.execute i (.ofWord (wordOfBytes (byteOfNibbles 0xF 2) (byteOfNibbles 0x6 0x5)))
    (∀ w ∈ ws, ¬ HasForm [⟨0xF, some 0x3, some 0x3⟩, ⟨0xF, some 0x5, some 0x5⟩,
        ⟨0xA, none, none⟩, ⟨0xF, some 0x1, some 0xE⟩, ⟨0xF, some 0x2, some 0x9⟩] w.2) ∧
      u.reg 2 = 0x27 ∧ u.reg 3 = t.reg 3 ∧ u.i = 0xFFFE ∧ u.memory.get 0xFFF = 0x17 ∧
      u.memory.get 0 = 0x27 := by
  intro s i ws saved t u
  have hws : ∀ w ∈ ws, ¬ HasForm [⟨0xF, some 0x3, some 0x3⟩, ⟨0xF, some 0x5, some 0x5⟩,
      ⟨0xA, none, none⟩, ⟨0xF, some 0x1, some 0xE⟩, ⟨0xF, some 0x2, some 0x9⟩] w.2 := by
    decide
  obtain ⟨hrestored, hkept, hi, -, hsaved⟩ :=
    (registers_saved_and_restored s).1 4 2 (by decide) i i ws hws
  exact ⟨hws, hrestored 2 (by decide), hkept 3 (by decide), hi,
    hsaved 1 (by decide) 0xFFF (by decide), hsaved 2 (by decide) 0 (by decide)⟩

end Chip8
