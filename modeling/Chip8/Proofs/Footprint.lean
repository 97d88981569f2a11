import Chip8.Proofs.Frame

/-!
# What an instruction may change

Where `State.WritesOnly` says which parts of the state an operation owns, this module says which
places in them: memory cells in a window from the index register on, the stack slot above the
pointer, the destination register, the flag. All places are counted modulo the size of their bank.
The keys that are held matter to three operations only.

Everything is put together for the words of a program in `execute_changes_only`.
-/

set_option autoImplicit false

namespace Chip8

namespace Opcode

/-- The operations that write their result to the first register. -/
def toFirst : List Opcode :=
  [loadByte, addByte, copy, or, and, xor, add, subtract, shiftRight, subtractFrom, shiftLeft, random,
    readDelay, awaitKey]

/-- The operations that write the flag. -/
def toFlag : List Opcode := [add, subtract, shiftRight, subtractFrom, shiftLeft, draw]

/-- The operations that look at the keys. -/
def onKeys : List Opcode := [skipIfHeld, skipUnlessHeld, awaitKey]

end Opcode

/-- The registers that an instruction may write: its destination, the flag, or the registers that it
loads. -/
def Instruction.Writes (i : Instruction) (r : Nibble) : Prop :=
  i.opcode ∈ Opcode.toFirst ∧ r = i.operand.x ∨ i.opcode ∈ Opcode.toFlag ∧ r = State.flag ∨
    i.opcode = .loadRegisters ∧ r ≤ i.operand.x

namespace Memory

/-- A cell ends up with a byte if it is written with no other one, and either has it already or is
written at all. -/
theorem get_foldl_write_eq {α : Type} (address : α → UInt16) (byte : α → UInt8)
    {c : Fin memorySize} {b : UInt8} (l : List α) (m : Memory)
    (hbyte : ∀ a ∈ l, cell (address a) = c → byte a = b)
    (h : m.get c = b ∨ ∃ a ∈ l, cell (address a) = c) :
    (l.foldl (fun m a => m.write (address a) (byte a)) m).get c = b := by
  induction l generalizing m with
  | nil => simpa using h
  | cons a l ih =>
    obtain ⟨ha, hl⟩ := List.forall_mem_cons.1 hbyte
    rw [List.foldl_cons]
    apply ih _ hl
    by_cases hc : cell (address a) = c
    · left
      rw [write, hc, Cells.get_set_self, ha hc]
    · rw [write, Cells.get_set_of_ne _ _ hc]
      refine h.imp_right ?_
      rintro ⟨a', ha', hc'⟩
      rcases List.mem_cons.1 ha' with rfl | hmem
      · exact absurd hc' hc
      · exact ⟨a', hmem, hc'⟩

/-- A cell keeps its byte while bytes are written to other cells. -/
theorem get_foldl_write {α : Type} (address : α → UInt16) (byte : α → UInt8) {c : Fin memorySize}
    (l : List α) (m : Memory) (hc : ∀ a ∈ l, cell (address a) ≠ c) :
    (l.foldl (fun m a => m.write (address a) (byte a)) m).get c = m.get c :=
  get_foldl_write_eq address byte l m (fun a ha hcell => absurd hcell (hc a ha)) (.inl rfl)

end Memory

namespace State

section

variable (s : State)

theorem mem_registersTo {r x : Nibble} : r ∈ registersTo x ↔ r ≤ x := by
  simp [registersTo]

/-- A cell outside the three from the index register on keeps its byte. -/
theorem get_storeDigits (b : UInt8) {c : Fin memorySize}
    (hc : ∀ k ≤ 2, c.val ≠ (s.i.toNat + k) % 4096) :
    (s.storeDigits b).memory.get c = s.memory.get c := by
  have hcell : ∀ k ≤ 2, Memory.cell (s.i + UInt16.ofNat k) ≠ c := by
    intro k hk heq
    apply hc k hk
    rw [← heq, Memory.val_cell_add]
  have hfirst : Memory.cell s.i ≠ c := by simpa using hcell 0 (by omega)
  have hsecond : Memory.cell (s.i + 1) ≠ c := hcell 1 (by omega)
  have hthird : Memory.cell (s.i + 2) ≠ c := hcell 2 (by omega)
  show (((s.memory.set _ _).set _ _).set _ _).get c = _
  rw [Cells.get_set_of_ne _ _ hthird, Cells.get_set_of_ne _ _ hsecond,
    Cells.get_set_of_ne _ _ hfirst]

/-- A cell outside the window for the registers up to `x` keeps its byte. -/
theorem get_storeRegisters (x : Nibble) {c : Fin memorySize}
    (hc : ∀ k ≤ x.val, c.val ≠ (s.i.toNat + k) % 4096) :
    (s.storeRegisters x).memory.get c = s.memory.get c := by
  apply Memory.get_foldl_write
  intro r hr heq
  apply hc r.val (mem_registersTo.1 hr)
  rw [← heq, Memory.val_cell_add]

/-- An instruction changes at most the cells of its window. -/
theorem memory_execute (inputs : Inputs) (instruction : Instruction) {c : Fin memorySize}
    (h : (s.execute inputs instruction).memory.get c ≠ s.memory.get c) :
    (instruction.opcode = .storeDigits ∧ ∃ k ≤ 2, c.val = (s.i.toNat + k) % 4096) ∨
      (instruction.opcode = .storeRegisters ∧
        ∃ k ≤ instruction.operand.x.val, c.val = (s.i.toNat + k) % 4096) := by
  obtain ⟨op, o⟩ := instruction
  by_cases hdigits : op = .storeDigits
  · subst hdigits
    refine .inl ⟨rfl, ?_⟩
    by_contra hout
    push Not at hout
    exact h (s.get_storeDigits _ hout)
  by_cases hregisters : op = .storeRegisters
  · subst hregisters
    refine .inr ⟨rfl, ?_⟩
    by_contra hout
    push Not at hout
    exact h (s.get_storeRegisters _ hout)
  · have hkept := (s.execute_writesOnly inputs ⟨op, o⟩).memory (by simp [hdigits, hregisters])
    exact absurd (congrArg (·.get c) hkept) h

/-- An instruction changes at most the stack slot above the pointer. -/
theorem stack_execute (inputs : Inputs) (instruction : Instruction) {q : Nibble}
    (h : (s.execute inputs instruction).stack.get q ≠ s.stack.get q) :
    instruction.opcode = .call ∧ q.val = (s.sp.toNat + 1) % 16 := by
  obtain ⟨op, o⟩ := instruction
  by_cases hcall : op = .call
  · subst hcall
    refine ⟨rfl, ?_⟩
    by_contra hother
    apply h
    have hslot : Nibble.ofByte (s.sp + 1) ≠ q := by
      rintro rfl
      apply hother
      show (s.sp + 1).toNat % 16 = _
      rw [UInt8.toNat_add]
      show (s.sp.toNat + 1) % 256 % 16 = _
      omega
    exact Cells.get_set_of_ne _ _ hslot
  · have hkept := (s.execute_writesOnly inputs ⟨op, o⟩).stack hcall
    exact absurd (congrArg (·.get q) hkept) h

/-- An instruction leaves the other registers as they are. -/
theorem reg_execute (inputs : Inputs) {instruction : Instruction} {r : Nibble}
    (h : ¬ instruction.Writes r) : (s.execute inputs instruction).reg r = s.reg r := by
  have hset : ∀ (s : State) (q : Nibble) b, r ≠ q → (s.setReg q b).reg r = s.reg r := by
    intro s q b hne
    rw [reg_setReg, if_neg hne.symm]
  obtain ⟨op, o⟩ := instruction
  simp only [Instruction.Writes, not_or, not_and] at h
  obtain ⟨hfirst, hflag, hload⟩ := h
  cases op with
  | loadByte | addByte | copy | or | and | xor | random | readDelay =>
    exact hset _ _ _ (hfirst (by decide))
  | add | subtract | shiftRight | subtractFrom | shiftLeft =>
    -- The flag first, and then the result.
    exact (hset _ _ _ (hfirst (by decide))).trans (hset _ _ _ (hflag (by decide)))
  | awaitKey =>
    show (s.awaitKey o.x inputs.keys).reg r = s.reg r
    unfold awaitKey
    split
    · exact hset _ _ _ (hfirst (by decide))
    · rfl
  | draw =>
    show (s.drawSprite o.x o.y (s.memory.readBytes s.i o.n.val)).reg r = s.reg r
    rw [(s.drawSprite_eq_afterHits o.x o.y o.n).2, reg_afterHits,
      if_neg (Ne.symm (hflag (by decide)))]
  | loadRegisters =>
    show (s.loadRegisters o.x).reg r = s.reg r
    rw [loadRegisters, reg, Cells.get_ofFn, if_neg (hload rfl)]
  | skipIfByte | skipUnlessByte | skipIfSame | skipUnlessSame | skipIfHeld | skipUnlessHeld =>
    show (s.skipIf _).reg r = s.reg r
    rw [skipIf_eq]
    rfl
  | _ => rfl

/-- The keys make no difference to an operation that does not look at them. -/
theorem execute_withKeys (inputs : Inputs) (keys : HeldKeys) {instruction : Instruction}
    (h : instruction.opcode ∉ Opcode.onKeys) :
    s.execute { inputs with keys := keys } instruction = s.execute inputs instruction := by
  obtain ⟨op, o⟩ := instruction
  dsimp only at h
  cases op with
  | skipIfHeld | skipUnlessHeld | awaitKey => exact absurd (by decide) h
  | _ => rfl

end

end State

open Instruction (HasForm)

/-- The frame of every instruction. Take any word as an instruction, any state and any inputs. A
memory cell changes only for `Fx33`, as one of the three from the index register on, and for `Fx55`,
as one of the `x + 1` from there on, with addresses modulo the memory size. The screen changes only
for `0?E0` and `Dxyn`, the stack pointer only for `2nnn` and `0?EE`, a stack slot only for `2nnn`,
as the one above the pointer, the index register only for `Annn`, `Fx1E` and `Fx29`, the delay timer
only for `Fx15` and the sound timer only for `Fx18`. A register changes only as the destination `Vx`
of an instruction that has one, as the flag for `8xy4` to `8xy7`, `8xyE` and `Dxyn`, and as one of
those up to `Vx` for `Fx65`. A word that stands for no operation changes nothing. The keys make a
difference only to `Ex9E`, `ExA1` and `Fx0A`. -/
theorem execute_changes_only (w : UInt16) (s : State) (inputs : Inputs) :
    let x := (Operand.ofWord w).x
    let t := s.execute inputs (.ofWord w)
    (∀ c, t.memory.get c ≠ s.memory.get c →
      (HasForm [⟨0xF, some 0x3, some 0x3⟩] w ∧ ∃ k ≤ 2, c.val = (s.i.toNat + k) % 4096) ∨
        (HasForm [⟨0xF, some 0x5, some 0x5⟩] w ∧
          ∃ k ≤ x.val, c.val = (s.i.toNat + k) % 4096)) ∧
      (t.screen ≠ s.screen → HasForm [⟨0x0, some 0xE, some 0x0⟩, ⟨0xD, none, none⟩] w) ∧
      (t.sp ≠ s.sp → HasForm [⟨0x2, none, none⟩, ⟨0x0, some 0xE, some 0xE⟩] w) ∧
      (∀ q, t.stack.get q ≠ s.stack.get q →
        HasForm [⟨0x2, none, none⟩] w ∧ q.val = (s.sp.toNat + 1) % 16) ∧
      (t.i ≠ s.i →
        HasForm [⟨0xA, none, none⟩, ⟨0xF, some 0x1, some 0xE⟩, ⟨0xF, some 0x2, some 0x9⟩] w) ∧
      (t.delay ≠ s.delay → HasForm [⟨0xF, some 0x1, some 0x5⟩] w) ∧
      (t.sound ≠ s.sound → HasForm [⟨0xF, some 0x1, some 0x8⟩] w) ∧
      (∀ r, t.reg r ≠ s.reg r →
        (r = x ∧
            HasForm [⟨0x6, none, none⟩, ⟨0x7, none, none⟩, ⟨0x8, none, some 0x0⟩,
              ⟨0x8, none, some 0x1⟩, ⟨0x8, none, some 0x2⟩, ⟨0x8, none, some 0x3⟩,
              ⟨0x8, none, some 0x4⟩, ⟨0x8, none, some 0x5⟩, ⟨0x8, none, some 0x6⟩,
              ⟨0x8, none, some 0x7⟩, ⟨0x8, none, some 0xE⟩, ⟨0xC, none, none⟩,
              ⟨0xF, some 0x0, some 0x7⟩, ⟨0xF, some 0x0, some 0xA⟩] w) ∨
          (r = 0xF ∧
            HasForm [⟨0x8, none, some 0x4⟩, ⟨0x8, none, some 0x5⟩, ⟨0x8, none, some 0x6⟩,
              ⟨0x8, none, some 0x7⟩, ⟨0x8, none, some 0xE⟩, ⟨0xD, none, none⟩] w) ∨
          (r ≤ x ∧ HasForm [⟨0xF, some 0x6, some 0x5⟩] w)) ∧
      ((Instruction.ofWord w).opcode = .noop → t = s) ∧
      (∀ keys, s.execute { inputs with keys := keys } (.ofWord w) ≠ t →
        HasForm [⟨0xE, some 0x9, some 0xE⟩, ⟨0xE, some 0xA, some 0x1⟩,
          ⟨0xF, some 0x0, some 0xA⟩] w) := by
  intro x t
  -- The forms in the statement are those of the operations that the lemmas name.
  have hform : ∀ ops : List Opcode, .noop ∉ ops → (Instruction.ofWord w).opcode ∈ ops →
      HasForm (ops.filterMap Opcode.form?) w ∧ (Instruction.ofWord w).operand = .ofWord w := by
    intro ops hops hop
    refine ⟨(Instruction.hasForm_filterMap_iff hops).2 hop, ?_⟩
    rw [Instruction.ofWord_eq_of_opcode (ne_of_mem_of_not_mem hop hops) rfl]
  have hwrites := s.execute_writesOnly inputs (.ofWord w)
  refine ⟨fun c hc => ?_, fun hne => ?_, fun hne => ?_, fun q hq => ?_, fun hne => ?_,
    fun hne => ?_, fun hne => ?_, fun r hr => ?_, fun hnoop => ?_, fun keys hne => ?_⟩
  · rcases s.memory_execute inputs _ hc with ⟨hop, hwindow⟩ | ⟨hop, hwindow⟩
    · exact .inl ⟨(hform [.storeDigits] (by decide) (by simp [hop])).1, hwindow⟩
    · obtain ⟨hstore, hoperand⟩ := hform [.storeRegisters] (by decide) (by simp [hop])
      rw [hoperand] at hwindow
      exact .inr ⟨hstore, hwindow⟩
  · exact (hform [.clearScreen, .draw] (by decide) (by_contra fun h => hne (hwrites.screen h))).1
  · exact (hform [.call, .ret] (by decide) (by_contra fun h => hne (hwrites.sp h))).1
  · obtain ⟨hop, hslot⟩ := s.stack_execute inputs _ hq
    exact ⟨(hform [.call] (by decide) (by simp [hop])).1, hslot⟩
  · exact (hform [.loadIndex, .advanceIndex, .loadGlyph] (by decide)
      (by_contra fun h => hne (hwrites.i h))).1
  · have hop : (Instruction.ofWord w).opcode = .writeDelay :=
      by_contra fun h => hne (hwrites.delay h)
    exact (hform [.writeDelay] (by decide) (by simp [hop])).1
  · have hop : (Instruction.ofWord w).opcode = .writeSound :=
      by_contra fun h => hne (hwrites.sound h)
    exact (hform [.writeSound] (by decide) (by simp [hop])).1
  · rcases by_contra fun h => hr (s.reg_execute inputs h) with
      ⟨hop, hfirst⟩ | ⟨hop, hflag⟩ | ⟨hop, hload⟩
    · obtain ⟨hfirsts, hoperand⟩ := hform _ (by decide) hop
      exact .inl ⟨by rw [hfirst, hoperand], hfirsts⟩
    · exact .inr (.inl ⟨hflag, (hform _ (by decide) hop).1⟩)
    · obtain ⟨hloads, hoperand⟩ := hform [.loadRegisters] (by decide) (by simp [hop])
      rw [hoperand] at hload
      exact .inr (.inr ⟨hload, hloads⟩)
  · show s.execute inputs (.ofWord w) = s
    rw [State.execute, hnoop]
  · exact (hform _ (by decide)
      (by_contra fun h => hne (s.execute_withKeys inputs keys h))).1

end Chip8
