import Chip8.Proofs.Drawing

/-!
# What instructions leave alone

Operations that touch only a part of the state, as equations for the whole state, and from them
what an instruction cannot change. Registers and program counter apart, each part of the state
belongs to a few operations (`State.execute_writesOnly`): the stack and its pointer to calls and
returns, the screen to clearing and drawing, each timer to the operation that sets it.

What each of some words leaves alone, all of them together do (`State.executeWords_keeps`).
-/

set_option autoImplicit false

namespace Chip8.State

section

variable (s : State)

theorem skipIf_eq (c : Bool) : s.skipIf c = { s with pc := (s.skipIf c).pc } := by
  cases c <;> rfl

theorem awaitKey_eq (x : Nibble) (keys : HeldKeys) :
    s.awaitKey x keys = { s with v := (s.awaitKey x keys).v, pc := (s.awaitKey x keys).pc } := by
  unfold awaitKey
  split <;> rfl

theorem drawSprite_eq (x y n : Nibble) :
    s.drawSprite x y (s.memory.readBytes s.i n.val) =
      { s with
        v := (s.drawSprite x y (s.memory.readBytes s.i n.val)).v
        screen := (s.drawSprite x y (s.memory.readBytes s.i n.val)).screen } := by
  rw [(s.drawSprite_eq_afterHits x y n).2]
  rfl

end

/-- `t` differs from `s` only in the registers, in the program counter and in what the operation may
write. -/
structure WritesOnly (op : Opcode) (s t : State) : Prop where
  i : op ∉ [.loadIndex, .advanceIndex, .loadGlyph] → t.i = s.i
  sp : op ∉ [.call, .ret] → t.sp = s.sp
  delay : op ≠ .writeDelay → t.delay = s.delay
  sound : op ≠ .writeSound → t.sound = s.sound
  memory : op ∉ [.storeDigits, .storeRegisters] → t.memory = s.memory
  stack : op ≠ .call → t.stack = s.stack
  screen : op ∉ [.clearScreen, .draw] → t.screen = s.screen

section

variable (s : State)

theorem WritesOnly.of_eq {s t : State} (op : Opcode) (h : t = { s with v := t.v, pc := t.pc }) :
    WritesOnly op s t := by
  rw [h]
  exact ⟨fun _ => rfl, fun _ => rfl, fun _ => rfl, fun _ => rfl, fun _ => rfl, fun _ => rfl,
    fun _ => rfl⟩

/-- An instruction writes only what its operation may write. -/
theorem execute_writesOnly (inputs : Inputs) (instruction : Instruction) :
    WritesOnly instruction.opcode s (s.execute inputs instruction) := by
  have hskip : ∀ op c, WritesOnly op s (s.skipIf c) := by
    intro op c
    rw [skipIf_eq]
    exact .of_eq op rfl
  obtain ⟨op, o⟩ := instruction
  cases op with
  | awaitKey => exact .of_eq _ (s.awaitKey_eq o.x inputs.keys)
  | skipIfByte | skipUnlessByte | skipIfSame | skipUnlessSame | skipIfHeld | skipUnlessHeld =>
    exact hskip _ _
  | draw =>
    show WritesOnly .draw s (s.drawSprite o.x o.y (s.memory.readBytes s.i o.n.val))
    rw [drawSprite_eq]
    constructor <;> simp
  | loadRegisters =>
    show WritesOnly .loadRegisters s (s.loadRegisters o.x)
    rw [loadRegisters]
    exact .of_eq _ rfl
  | clearScreen | ret | call | loadIndex | writeDelay | writeSound | advanceIndex | loadGlyph
  | storeDigits | storeRegisters =>
    -- The part that the operation owns is excepted, and the others are not touched.
    constructor <;> simp [execute, returnToCaller, callTo, jumpTo, State.storeDigits,
      State.storeRegisters]
  | _ => exact .of_eq _ rfl

/-- No instruction but calls and returns touches the stack or its pointer. -/
theorem execute_stack_frame (inputs : Inputs) {instruction : Instruction}
    (hcall : instruction.opcode ≠ .call) (hret : instruction.opcode ≠ .ret) :
    (s.execute inputs instruction).sp = s.sp ∧ (s.execute inputs instruction).stack = s.stack := by
  have h := s.execute_writesOnly inputs instruction
  exact ⟨h.sp (by simp [hcall, hret]), h.stack hcall⟩

end

/-! ## Words one after the other -/

/-- Executes words one after the other, each with inputs of its own. The program counter does not
move on in between. -/
def executeWords (s : State) (ws : List (Inputs × UInt16)) : State :=
  ws.foldl (fun s w => s.execute w.1 (.ofWord w.2)) s

theorem executeWords_cons (s : State) (w : Inputs × UInt16) (ws : List (Inputs × UInt16)) :
    s.executeWords (w :: ws) = (s.execute w.1 (.ofWord w.2)).executeWords ws := rfl

theorem executeWords_keeps {α : Type} (f : State → α) {ws : List (Inputs × UInt16)}
    (h : ∀ w ∈ ws, ∀ s : State, f (s.execute w.1 (.ofWord w.2)) = f s) (s : State) :
    f (s.executeWords ws) = f s := by
  induction ws generalizing s with
  | nil => rfl
  | cons w ws ih =>
    obtain ⟨hw, hws⟩ := List.forall_mem_cons.1 h
    rw [executeWords_cons, ih hws, hw]

theorem memory_executeWords {ws : List (Inputs × UInt16)}
    (h : ∀ w ∈ ws, (Instruction.ofWord w.2).opcode ∉ [.storeDigits, .storeRegisters]) (s : State) :
    (s.executeWords ws).memory = s.memory :=
  executeWords_keeps State.memory (fun w hw s => (s.execute_writesOnly w.1 _).memory (h w hw)) s

theorem i_executeWords {ws : List (Inputs × UInt16)}
    (h : ∀ w ∈ ws, (Instruction.ofWord w.2).opcode ∉ [.loadIndex, .advanceIndex, .loadGlyph])
    (s : State) : (s.executeWords ws).i = s.i :=
  executeWords_keeps State.i (fun w hw s => (s.execute_writesOnly w.1 _).i (h w hw)) s

end Chip8.State
