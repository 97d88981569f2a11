import Chip8.Proofs.Drawing
import Chip8.Proofs.Guarded
import Mathlib.Data.Nat.Bitwise

/-!
# Guarded execution

Every operation with guarded accesses (`State.guardedExecute`): the loops count lines, bits and
registers, the dots of a sprite are found by sums and products, and the keys held are gathered in a
buffer. Each part comes to the plain one without breaking a guard, and so does the whole
(`State.guardedExecute_eq`).

Each access has its own reason. The nibbles of an operand and the masks of addresses bound the
indices of registers and memory, remainders those of the stack and the screen; a glyph's address and
a position on the screen stay small since a register is a byte.
-/

set_option autoImplicit false

namespace Chip8

open Guarded Operand

/-! ## Held keys -/

namespace Keypad

/-- Adds a value to a buffer for sixteen if its key is held. -/
def collect (buffer : List UInt8) (key : Bool × UInt8) : Guarded (List UInt8) :=
  if key.1 then push 16 buffer key.2 else return buffer

/-- The values of the held keys, collected slot by slot. -/
def guardedValues (keys : HeldKeys) : Guarded (List UInt8) :=
  (keys.toList.zip layout.toList).foldlM collect []

/-- A buffer with room for all keys to come takes the held ones. -/
theorem foldlM_collect (slots : List (Bool × UInt8)) {buffer : List UInt8}
    (h : buffer.length + slots.length ≤ 16) :
    slots.foldlM collect buffer = pure (buffer ++ (slots.filter Prod.fst).map Prod.snd) := by
  induction slots generalizing buffer with
  | nil => simp
  | cons slot slots ih =>
    obtain ⟨held, value⟩ := slot
    rw [List.length_cons] at h
    rw [List.foldlM_cons]
    cases held with
    | false =>
      have hrest : buffer.length + slots.length ≤ 16 := by omega
      exact ih hrest
    | true =>
      have hroom : buffer.length < 16 := by omega
      have hrest : (buffer ++ [value]).length + slots.length ≤ 16 := by
        rw [List.length_append, List.length_singleton]
        omega
      have hpush : collect buffer (true, value) = pure (buffer ++ [value]) := push_of_lt hroom value
      rw [hpush, pure_bind, ih hrest]
      simp

/-- Sixteen keys fit the buffer. -/
@[simp]
theorem guardedValues_eq (keys : HeldKeys) : guardedValues keys = pure (heldValues keys) := by
  have hslots : keys.toList.zip layout.toList =
      (List.finRange 16).map fun slot => (keys.get slot, layout.get slot) := by
    apply List.ext_getElem
    · simp [Cells.toList]
    · intro k h₁ h₂
      simp [Cells.toList, Cells.get]
  have hroom : ([] : List UInt8).length + (keys.toList.zip layout.toList).length ≤ 16 := by
    simp [Cells.toList]
  rw [guardedValues, foldlM_collect _ hroom, hslots, List.filter_map, List.map_map]
  rfl

end Keypad

namespace State

variable (s : State)

/-! ## Instruction words -/

/-- The word at an address, byte by byte. -/
def guardedWord (a : UInt16) : Guarded UInt16 := do
  return wordOfBytes (← s.fetchByte a) (← s.fetchByte (a + 1))

@[simp]
theorem guardedWord_eq (a : UInt16) : s.guardedWord a = pure (s.wordAt a) := by
  simp only [guardedWord, fetchByte_eq, pure_bind]
  rfl

/-! ## Sprites -/

/-- Turns over the cell under a dot of a sprite. An index has sixteen bits at the least. -/
def guardedPlot (w : UInt16) (row bit : Nat) : Guarded State := do
  let x ← fit 16 ((← s.fetchReg (bareX w)).toNat + bit)
  let y ← fit 16 ((← s.fetchReg (bareY w)).toNat + row)
  let line ← fit 16 (y * screenWidth)
  let position ← fit 16 (x + line)
  let cell := position % screenSize
  let collision := (← s.screen.fetch cell) &&& 1
  let s ← s.storeReg 0xF ((← s.fetchReg 0xF) ||| collision)
  return { s with screen := ← s.screen.store cell (~~~ (← s.screen.fetch cell)) }

/-- Looks at one bit of a sprite's line. -/
def guardedDot (w : UInt16) (row : Nat) (line : UInt8) (bit : Nat) : Guarded State := do
  let mask ← shifted 0x80 bit
  if line &&& mask = 0 then return s else s.guardedPlot w row bit

/-- Draws one line of the sprite that begins at `i`. -/
def guardedRow (w i : UInt16) (row : Nat) : Guarded State := do
  let line ← s.fetchByte (i + UInt16.ofNat row)
  countFrom 16 (fun bit s => s.guardedDot w row line bit) 0 8 s

/-- Draws a sprite, line by line. -/
def guardedDraw (w : UInt16) : Guarded State := do
  let start ← s.storeReg 0xF 0
  countFrom 16 (fun row t => t.guardedRow w start.i row) 0 (bareN w).toNat start

/-- The mask for a bit of a line tests that bit, counted from the top. -/
theorem and_mask_eq_zero (line : UInt8) {bit : Nat} (h : bit < 8) :
    line &&& (0x80 >>> UInt8.ofNat bit) = 0 ↔ line.toNat.testBit (7 - bit) = false := by
  have hmask : ∀ bit < 8, ((0x80 : UInt8) >>> UInt8.ofNat bit).toNat = 2 ^ (7 - bit) := by decide
  rw [← UInt8.toNat_inj, UInt8.toNat_and, hmask bit h, Nat.and_two_pow]
  cases line.toNat.testBit (7 - bit) <;> simp

/-- The cell of a dot, found as a remainder, is the one that drawing turns over. -/
theorem guardedPlot_eq (w : UInt16) {row bit : Nat} (hrow : row < 16) (hbit : bit < 8) :
    s.guardedPlot w row bit = pure (s.plot (ofWord w).x (ofWord w).y (bit, row)) := by
  have hx := (s.reg (ofWord w).x).toNat_lt
  have hy := (s.reg (ofWord w).y).toNat_lt
  have hcell : ((s.reg (ofWord w).x).toNat + bit +
      ((s.reg (ofWord w).y).toNat + row) * screenWidth) % screenSize =
        (s.dotCell (ofWord w).x (ofWord w).y (bit, row)).val := by
    rw [Nat.mul_comm]
    rfl
  have hcolumn : (s.reg (ofWord w).x).toNat + bit < 2 ^ 16 := by omega
  have hrow' : (s.reg (ofWord w).y).toNat + row < 2 ^ 16 := by omega
  have hline : ((s.reg (ofWord w).y).toNat + row) * screenWidth < 2 ^ 16 := by
    rw [screenWidth]
    omega
  have hposition : (s.reg (ofWord w).x).toNat + bit +
      ((s.reg (ofWord w).y).toNat + row) * screenWidth < 2 ^ 16 := by
    rw [screenWidth]
    omega
  simp only [guardedPlot, fetchReg_eq, storeReg_eq, ofByte_bareX, ofByte_bareY, pure_bind,
    fit_of_lt hcolumn, fit_of_lt hrow', fit_of_lt hline, fit_of_lt hposition, hcell,
    Cells.fetch_eq_get]
  rw [Cells.store_eq_set]
  rfl

/-- A bit of a line is drawn if it is set. -/
theorem guardedDot_eq (w : UInt16) (line : UInt8) {row bit : Nat} (hrow : row < 16)
    (hbit : bit < 8) :
    s.guardedDot w row line bit = pure (if line.toNat.testBit (7 - bit) then
      s.plot (ofWord w).x (ofWord w).y (bit, row) else s) := by
  rw [guardedDot, shifted_of_lt _ hbit, pure_bind, s.guardedPlot_eq w hrow hbit]
  cases hbitset : line.toNat.testBit (7 - bit) with
  | false => rw [if_pos ((and_mask_eq_zero line hbit).2 hbitset)]; rfl
  | true =>
    rw [if_neg]
    · rfl
    · rw [and_mask_eq_zero line hbit, hbitset]
      simp

/-- Turns over the cells under the set bits of a sprite's line. -/
def plotLine (x y : Nibble) (row : Nat) (line : UInt8) : State :=
  (List.range 8).foldl
    (fun t bit => if line.toNat.testBit (7 - bit) then t.plot x y (bit, row) else t) s

/-- Memory, where the lines to come are, is left alone. -/
@[simp]
theorem memory_plotLine (x y : Nibble) (row : Nat) (line : UInt8) :
    (s.plotLine x y row line).memory = s.memory := by
  rw [plotLine]
  induction List.range 8 generalizing s with
  | nil => rfl
  | cons bit bits ih =>
    rw [List.foldl_cons, ih]
    split
    · rfl
    · rfl

/-- A sprite is drawn line by line, each with the byte that memory holds for it. -/
theorem drawSprite_eq_foldl_plotLine (x y : Nibble) (n : Nat) :
    s.drawSprite x y (s.memory.readBytes s.i n) =
      (List.range n).foldl (fun t row => t.plotLine x y row (Sprite.rowByte s.memory s.i row))
        (s.setReg flag 0) := by
  rw [drawSprite, Sprite.dots_readBytes, Sprite.setBits, List.product, List.foldl_map,
    List.foldl_filter, List.foldl_flatMap]
  simp only [List.foldl_map]
  rfl

theorem guardedRow_eq (w i : UInt16) {row : Nat} (hrow : row < 16) :
    s.guardedRow w i row =
      pure (s.plotLine (ofWord w).x (ofWord w).y row (Sprite.rowByte s.memory i row)) := by
  have hbits : 0 + 8 < 2 ^ 16 := by decide
  rw [guardedRow, fetchByte_eq, pure_bind, Sprite.read_add_ofNat, plotLine, List.range_eq_range']
  exact countFrom_eq_foldl (fun _ => True) hbits trivial fun bit t hbit _ =>
    ⟨t.guardedDot_eq w _ hrow (by omega), trivial⟩

@[simp]
theorem guardedDraw_eq (w : UInt16) :
    s.guardedDraw w = pure (s.drawSprite (ofWord w).x (ofWord w).y
      (s.memory.readBytes s.i (ofWord w).n.val)) := by
  have hn := (ofWord w).n.isLt
  have hrows : 0 + (ofWord w).n.val < 2 ^ 16 := by omega
  rw [guardedDraw, storeReg_eq, pure_bind, toNat_bareN, drawSprite_eq_foldl_plotLine,
    List.range_eq_range']
  -- The loop keeps memory, and so finds the bytes that the sprite had at the beginning.
  refine countFrom_eq_foldl (fun t => t.memory = s.memory) hrows rfl fun row t hrow ht => ⟨?_, ?_⟩
  · have hrow' : row < 16 := by omega
    rw [t.guardedRow_eq w _ hrow', ht]
    rfl
  · rw [memory_plotLine, ht]

/-! ## Blocks of registers -/

/-- Stores a register, of which the number is counted, at its place from `i` on. -/
def guardedStoreOne (i : UInt16) (r : Nat) : Guarded State := do
  s.storeByte (i + UInt16.ofNat r) (← s.fetchReg (UInt8.ofNat r))

/-- Loads a register from its place. -/
def guardedLoadOne (i : UInt16) (r : Nat) : Guarded State := do
  s.storeReg (UInt8.ofNat r) (← s.fetchByte (i + UInt16.ofNat r))

/-- Stores the registers up to the one that a byte names. -/
def guardedStoreRegisters (x : UInt8) : Guarded State :=
  countFrom 8 (fun r t => t.guardedStoreOne s.i r) 0 (x.toNat + 1) s

/-- Loads the registers up to the one that a byte names. -/
def guardedLoadRegisters (x : UInt8) : Guarded State :=
  countFrom 8 (fun r t => t.guardedLoadOne s.i r) 0 (x.toNat + 1) s

/-- Stores one register. -/
def storeOne (i : UInt16) (r : Nibble) : State :=
  { s with memory := s.memory.write (i + UInt16.ofNat r.val) (s.reg r) }

/-- Loads one register. -/
def loadOne (i : UInt16) (r : Nibble) : State :=
  s.setReg r (s.memory.read (i + UInt16.ofNat r.val))

/-- The number of a register, as a byte, names the register. -/
theorem ofByte_ofNat (r : Nibble) : Nibble.ofByte (UInt8.ofNat r.val) = r := by
  revert r
  decide

theorem guardedStoreOne_eq (i : UInt16) (r : Nibble) :
    s.guardedStoreOne i r.val = pure (s.storeOne i r) := by
  rw [guardedStoreOne, fetchReg_eq, pure_bind, storeByte_eq, ofByte_ofNat]
  rfl

theorem guardedLoadOne_eq (i : UInt16) (r : Nibble) :
    s.guardedLoadOne i r.val = pure (s.loadOne i r) := by
  rw [guardedLoadOne, fetchByte_eq, pure_bind, storeReg_eq, ofByte_ofNat]
  rfl

/-- A loop that counts the registers up to a given one is a fold over them. -/
theorem countFrom_registers {body : Nat → State → Guarded State} {f : State → Nibble → State}
    (x : Nibble) (hbody : ∀ (r : Nibble) t, body r.val t = pure (f t r)) :
    countFrom 8 body 0 (x.val + 1) s = pure ((registersTo x).foldl f s) := by
  have hx := x.isLt
  have hregs : 0 + (x.val + 1) < 2 ^ 8 := by omega
  have hcount : ∀ x : Nibble, (registersTo x).map Fin.val = List.range' 0 (x.val + 1) := by decide
  have hloop : countFrom 8 body 0 (x.val + 1) s =
      pure ((List.range' 0 (x.val + 1)).foldl (fun t r => f t (.ofNat r)) s) := by
    refine countFrom_eq_foldl (fun _ => True) hregs trivial fun r t hr _ => ⟨?_, trivial⟩
    have hval : (Nibble.ofNat r).val = r := Nat.mod_eq_of_lt (by omega)
    have h := hbody (.ofNat r) t
    rwa [hval] at h
  have hname : ∀ r : Nibble, Nibble.ofNat r.val = r := by decide
  rw [hloop, ← hcount, List.foldl_map]
  simp only [hname]

/-- Storing registers changes memory alone. -/
theorem foldl_storeOne (i : UInt16) (rs : List Nibble) (m : Memory) :
    rs.foldl (fun t r => t.storeOne i r) { s with memory := m } =
      { s with memory := rs.foldl (fun m r => m.write (i + UInt16.ofNat r.val) (s.reg r)) m } := by
  induction rs generalizing m with
  | nil => rfl
  | cons r rs ih => exact ih _

/-- A register that has been loaded is not changed again. -/
theorem foldl_set_registers (g : Nibble → UInt8) (rs : List Nibble) (v : Cells UInt8 16) :
    rs.foldl (fun v r => v.set r (g r)) v = .ofFn fun r => if r ∈ rs then g r else v.get r := by
  induction rs generalizing v with
  | nil =>
    ext r
    simp
  | cons r rs ih =>
    rw [List.foldl_cons, ih]
    ext q
    by_cases hq : q ∈ rs
    · simp [hq]
    · by_cases hr : r = q
      · simp [hr]
      · simp [hq, hr, Ne.symm hr, Cells.get_set]

/-- Loading registers changes registers alone. -/
theorem foldl_loadOne (i : UInt16) (rs : List Nibble) (v : Cells UInt8 16) :
    rs.foldl (fun t r => t.loadOne i r) { s with v := v } =
      { s with
        v := rs.foldl (fun v r => v.set r (s.memory.read (i + UInt16.ofNat r.val))) v } := by
  induction rs generalizing v with
  | nil => rfl
  | cons r rs ih => exact ih _

@[simp]
theorem guardedStoreRegisters_eq (w : UInt16) :
    s.guardedStoreRegisters (bareX w) = pure (s.storeRegisters (ofWord w).x) := by
  rw [guardedStoreRegisters, toNat_bareX]
  refine (s.countFrom_registers _ fun r t => t.guardedStoreOne_eq s.i r).trans ?_
  exact congrArg pure (s.foldl_storeOne s.i _ s.memory)

@[simp]
theorem guardedLoadRegisters_eq (w : UInt16) :
    s.guardedLoadRegisters (bareX w) = pure (s.loadRegisters (ofWord w).x) := by
  rw [guardedLoadRegisters, toNat_bareX]
  refine (s.countFrom_registers _ fun r t => t.guardedLoadOne_eq s.i r).trans ?_
  refine congrArg pure ((s.foldl_loadOne s.i _ s.v).trans ?_)
  rw [foldl_set_registers]
  simp only [loadRegisters, registersTo, List.mem_filter, List.mem_finRange, true_and,
    decide_eq_true_eq]
  rfl

/-! ## Instructions -/

/-- Goes back to the caller. The pointer of an empty stack is not taken down. -/
def guardedReturn : Guarded State := do
  let s := { s with pc := ← s.stack.fetch (stackIndex s.sp) }
  if s.sp > 0 then return { s with sp := UInt8.ofNat (← minus s.sp.toNat 1) } else return s

/-- Goes to `target`, with the place of the call in the next slot. -/
def guardedCall (target : UInt16) : Guarded State := do
  let s := { s with sp := s.sp + 1 }
  return { s with stack := ← s.stack.store (stackIndex s.sp) s.pc }.jumpTo target

/-- Stores the first held key in a register, or waits. -/
def guardedAwaitKey (x : UInt8) (keys : HeldKeys) : Guarded State := do
  match (← Keypad.guardedValues keys).head? with
  | some value => s.storeReg x value
  | none => return { s with pc := s.pc - 2 }

/-- Points the index register at the glyph of a digit, an address of sixteen bits. -/
def guardedGlyph (digit : UInt8) : Guarded State := do
  let distance ← fit 16 (digit.toNat * Font.glyphSize)
  return { s with i := UInt16.ofNat (← fit 16 (0 + distance)) }

/-- Stores the decimal digits of a byte. -/
def guardedDigits (b : UInt8) : Guarded State := do
  let t ← s.storeByte s.i (b / 100)
  let t ← t.storeByte (s.i + 1) (b / 10 % 10)
  t.storeByte (s.i + 2) (b % 10)

/-- The effect of an operation with the bits of its operand. -/
def guardedExecute (inputs : Inputs) (op : Opcode) (w : UInt16) : Guarded State :=
  let x := bareX w
  let y := bareY w
  match op with
  | .noop => return s
  | .clearScreen => return { s with screen := Screen.dark }
  | .ret => s.guardedReturn
  | .jump => return s.jumpTo (bareAddr w)
  | .call => s.guardedCall (bareAddr w)
  | .skipIfByte => return s.skipIf ((← s.fetchReg x) = bareByte w)
  | .skipUnlessByte => return s.skipIf ((← s.fetchReg x) ≠ bareByte w)
  | .skipIfSame => return s.skipIf ((← s.fetchReg x) = (← s.fetchReg y))
  | .loadByte => s.storeReg x (bareByte w)
  | .addByte => do s.storeReg x ((← s.fetchReg x) + bareByte w)
  | .copy => do s.storeReg x (← s.fetchReg y)
  | .or => do s.storeReg x ((← s.fetchReg x) ||| (← s.fetchReg y))
  | .and => do s.storeReg x ((← s.fetchReg x) &&& (← s.fetchReg y))
  | .xor => do s.storeReg x ((← s.fetchReg x) ^^^ (← s.fetchReg y))
  | .add => do
      let vx ← s.fetchReg x
      let vy ← s.fetchReg y
      let s ← s.storeReg 0xF (flagByte (vx.toNat + vy.toNat ≥ 256))
      s.storeReg x (vx + vy)
  | .subtract => do
      let vx ← s.fetchReg x
      let vy ← s.fetchReg y
      let s ← s.storeReg 0xF (flagByte (vx > vy))
      s.storeReg x (vx - vy)
  | .shiftRight => do
      let s ← s.storeReg 0xF ((← s.fetchReg x) &&& 1)
      s.storeReg x ((← s.fetchReg x) >>> 1)
  | .subtractFrom => do
      let s ← s.storeReg 0xF (flagByte ((← s.fetchReg y) ≤ (← s.fetchReg x)))
      s.storeReg x ((← s.fetchReg y) - (← s.fetchReg x))
  | .shiftLeft => do
      let s ← s.storeReg 0xF ((← s.fetchReg x) &&& 0x80)
      s.storeReg x ((← s.fetchReg x) <<< 1)
  | .skipUnlessSame => return s.skipIf ((← s.fetchReg x) ≠ (← s.fetchReg y))
  | .loadIndex => return { s with i := bareAddr w }
  | .jumpOffset => return s.jumpTo (bareAddr w + (← s.fetchReg 0).toUInt16)
  | .random => s.storeReg x (inputs.random &&& bareByte w)
  | .draw => s.guardedDraw w
  | .skipIfHeld => return s.skipIf (← inputs.keys.fetch (registerIndex (← s.fetchReg x)))
  | .skipUnlessHeld => return s.skipIf !(← inputs.keys.fetch (registerIndex (← s.fetchReg x)))
  | .readDelay => s.storeReg x s.delay
  | .awaitKey => s.guardedAwaitKey x inputs.keys
  | .writeDelay => return { s with delay := ← s.fetchReg x }
  | .writeSound => return { s with sound := ← s.fetchReg x }
  | .advanceIndex => return { s with i := s.i + (← s.fetchReg x).toUInt16 }
  | .loadGlyph => do s.guardedGlyph (← s.fetchReg x)
  | .storeDigits => do s.guardedDigits (← s.fetchReg x)
  | .storeRegisters => s.guardedStoreRegisters x
  | .loadRegisters => s.guardedLoadRegisters x

@[simp]
theorem guardedReturn_eq : s.guardedReturn = pure s.returnToCaller := by
  have hslot : stackIndex s.sp = s.slot.val := rfl
  simp only [guardedReturn, hslot, Cells.fetch_eq_get, pure_bind]
  by_cases hsp : s.sp = 0
  · simp [hsp, returnToCaller]
  · have hpos : s.sp > 0 := UInt8.pos_iff_ne_zero.2 hsp
    have hone : 1 ≤ s.sp.toNat := UInt8.lt_iff_toNat_lt.1 hpos
    have hless : UInt8.ofNat (s.sp.toNat - 1) = s.sp - 1 := by
      rw [UInt8.ofNat_sub hone, UInt8.ofNat_toNat]
      rfl
    simp [hpos, hsp, minus_of_le hone, hless, returnToCaller]

@[simp]
theorem guardedCall_eq (target : UInt16) : s.guardedCall target = pure (s.callTo target) := by
  have hslot : stackIndex (s.sp + 1) = ({ s with sp := s.sp + 1 } : State).slot.val := rfl
  simp only [guardedCall, hslot, Cells.store_eq_set, pure_bind]
  rfl

@[simp]
theorem guardedAwaitKey_eq (w : UInt16) (keys : HeldKeys) :
    s.guardedAwaitKey (bareX w) keys = pure (s.awaitKey (ofWord w).x keys) := by
  rw [guardedAwaitKey, Keypad.guardedValues_eq, pure_bind, awaitKey]
  cases (Keypad.heldValues keys).head? with
  | none => rfl
  | some value => simp

@[simp]
theorem guardedGlyph_eq (digit : UInt8) :
    s.guardedGlyph digit = pure { s with i := Font.glyph digit } := by
  have hdigit := digit.toNat_lt
  have hdistance : digit.toNat * Font.glyphSize < 2 ^ 16 := by
    rw [Font.glyphSize]
    omega
  rw [guardedGlyph, fit_of_lt hdistance, pure_bind, Nat.zero_add, fit_of_lt hdistance, pure_bind,
    Nat.mul_comm]
  rfl

@[simp]
theorem guardedDigits_eq (b : UInt8) : s.guardedDigits b = pure (s.storeDigits b) := by
  simp only [guardedDigits, storeByte_eq, pure_bind]
  rfl

/-- No instruction breaks a guard. -/
theorem guardedExecute_eq (inputs : Inputs) (op : Opcode) (w : UInt16) :
    s.guardedExecute inputs op w = pure (s.execute inputs ⟨op, ofWord w⟩) := by
  have hheld : ∀ b, inputs.keys.fetch (registerIndex b) =
      pure (inputs.keys.get (Nibble.ofByte b)) := by
    intro b
    rw [registerIndex_eq, Cells.fetch_eq_get]
  have hflag : Nibble.ofByte 0xF = flag := rfl
  have hzero : Nibble.ofByte 0 = Nibble.ofNat 0 := rfl
  cases op <;> simp [guardedExecute, execute, hheld, hflag, hzero]

end State

end Chip8
