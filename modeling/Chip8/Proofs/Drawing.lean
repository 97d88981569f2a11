import Chip8.Execute
import Chip8.Proofs.Decoding
import Mathlib.Data.List.Induction
import Mathlib.Data.List.ProdSigma
import Mathlib.Order.Fin.Basic

/-!
# What drawing a sprite does

The set bits of a sprite hit screen cells one after the other. A coordinate register that is not
the flag keeps its value meanwhile; the flag as a coordinate is 0 until a cell with a set low bit
has been hit and 1 from the next bit on (`State.coordinate`). Either way the positions only grow
from bit to bit and stay within half a screen, so no cell is hit twice (`State.nodup_hits`).

Hence the loop over the bits has a closed form: the cells hit are complemented once, and the flag
tells whether one of them had its low bit set (`execute_draw_word`).
-/

set_option autoImplicit false

namespace Chip8

/-! ## Set bits -/

namespace Sprite

/-- The byte of a sprite's row: sprites begin at the index register and go on at the start of memory
after its end. -/
def rowByte (m : Memory) (i : UInt16) (row : Nat) : UInt8 :=
  m.get ⟨(i.toNat + row) % memorySize, Nat.mod_lt _ (by decide)⟩

/-- The set bits of the first `n` rows as pairs of row and bit, row by row. Bit 0 is the leftmost
one. -/
def setBits (m : Memory) (i : UInt16) (n : Nat) : List (Nat × Nat) :=
  ((List.range n).product (List.range 8)).filter fun b => (rowByte m i b.1).toNat.testBit (7 - b.2)

/-- Reading order: row by row, from the left. -/
def Before (a b : Nat × Nat) : Prop := a.1 < b.1 ∨ a.1 = b.1 ∧ a.2 < b.2

theorem read_add_ofNat (m : Memory) (i : UInt16) (row : Nat) :
    m.read (i + UInt16.ofNat row) = rowByte m i row :=
  congrArg m.get (Fin.ext (Memory.val_cell_add i row))

/-- The dots of the sprite at the index register are its set bits, columns first. -/
theorem dots_readBytes (m : Memory) (i : UInt16) (n : Nat) :
    dots (m.readBytes i n) = (setBits m i n).map Prod.swap := by
  -- Rows are numbered in the order in which their bytes are read.
  have hrows : (m.readBytes i n).zipIdx = (List.range n).map fun row => (rowByte m i row, row) := by
    apply List.ext_getElem
    · simp [Memory.readBytes]
    · intro k h₁ h₂
      simp [Memory.readBytes, read_add_ofNat]
  rw [dots, hrows, setBits, List.product, List.filter_flatMap, List.map_flatMap, List.flatMap_map]
  congr 1
  funext row
  simp [rowDots, List.filter_map, Function.comp_def]

theorem pairwise_setBits (m : Memory) (i : UInt16) (n : Nat) :
    (setBits m i n).Pairwise Before := by
  apply List.Pairwise.filter
  rw [List.product, List.pairwise_flatMap]
  constructor
  · intro row _
    rw [List.pairwise_map]
    exact List.pairwise_lt_range.imp fun h => Or.inr ⟨rfl, h⟩
  · refine List.pairwise_lt_range.imp ?_
    intro row row' h a ha b hb
    obtain ⟨_, -, rfl⟩ := List.mem_map.1 ha
    obtain ⟨_, -, rfl⟩ := List.mem_map.1 hb
    exact Or.inl h

theorem mem_setBits {m : Memory} {i : UInt16} {n : Nat} {b : Nat × Nat} :
    b ∈ setBits m i n ↔ b.1 < n ∧ b.2 < 8 ∧ (rowByte m i b.1).toNat.testBit (7 - b.2) = true := by
  obtain ⟨row, bit⟩ := b
  have hmem : (row, bit) ∈ (List.range n).product (List.range 8) ↔ row < n ∧ bit < 8 := by
    rw [← List.mem_range, ← List.mem_range]
    exact List.mem_product
  rw [setBits, List.mem_filter, hmem, and_assoc]

end Sprite

/-! ## Cells hit -/

namespace Screen

/-- Whether one of the given cells has its low bit set. -/
def collides (s : Screen) (cells : List (Fin screenSize)) : Bool :=
  cells.any fun c => (s.get c).toNat % 2 = 1

/-- The screen with the given cells complemented. -/
def flip (s : Screen) (cells : List (Fin screenSize)) : Screen :=
  .ofFn fun c => if c ∈ cells then ~~~ s.get c else s.get c

@[simp]
theorem collides_append (s : Screen) (cells cells' : List (Fin screenSize)) :
    s.collides (cells ++ cells') = (s.collides cells || s.collides cells') := by
  simp only [collides, List.any_append]

theorem get_flip (s : Screen) (cells : List (Fin screenSize)) (c : Fin screenSize) :
    (s.flip cells).get c = if c ∈ cells then ~~~ s.get c else s.get c := Cells.get_ofFn _ c

/-- Complementing a further cell in place complements it in the list of cells. -/
theorem set_flip (s : Screen) (cells : List (Fin screenSize)) (c : Fin screenSize) :
    (s.flip cells).set c (~~~ s.get c) = s.flip (cells ++ [c]) := by
  ext d
  rw [Cells.get_set]
  by_cases hd : c = d
  · subst hd
    simp [flip]
  · simp [flip, hd, Ne.symm hd]

end Screen

namespace State

/-- What a coordinate register counts as once the cells `earlier` have been hit. -/
def coordinate (s : State) (r : Nibble) (earlier : List (Fin screenSize)) : Nat :=
  if r = flag then (if s.screen.collides earlier then 1 else 0) else (s.reg r).toNat

/-- The cell that a set bit hits once the cells `earlier` have been hit. -/
def hit (s : State) (x y : Nibble) (earlier : List (Fin screenSize)) (b : Nat × Nat) :
    Fin screenSize :=
  Screen.cell (s.coordinate x earlier + b.2) (s.coordinate y earlier + b.1)

/-- The cells that set bits hit, in order. -/
def hits (s : State) (x y : Nibble) (bits : List (Nat × Nat)) : List (Fin screenSize) :=
  bits.foldl (fun earlier b => earlier ++ [s.hit x y earlier b]) []

section

variable (s : State) (x y : Nibble)

@[simp]
theorem hits_nil : s.hits x y [] = [] := rfl

@[simp]
theorem hits_append_singleton (bits : List (Nat × Nat)) (b : Nat × Nat) :
    s.hits x y (bits ++ [b]) = s.hits x y bits ++ [s.hit x y (s.hits x y bits) b] := by
  simp only [hits, List.foldl_append, List.foldl_cons, List.foldl_nil]

@[simp]
theorem length_hits (bits : List (Nat × Nat)) : (s.hits x y bits).length = bits.length := by
  induction bits using List.reverseRecOn with
  | nil => rfl
  | append_singleton bits b ih => simp [ih]

/-- Each set bit hits the cell that the cells hit before it determine. -/
theorem getElem?_hits (bits : List (Nat × Nat)) (k : Nat) :
    (s.hits x y bits)[k]? = bits[k]?.map (s.hit x y ((s.hits x y bits).take k)) := by
  induction bits using List.reverseRecOn with
  | nil => rfl
  | append_singleton bits b ih =>
    have hlen := s.length_hits x y bits
    rw [hits_append_singleton]
    -- A place among the first bits, that of the last bit, or none.
    rcases Nat.lt_trichotomy k bits.length with hk | rfl | hk
    · rw [List.getElem?_append_left (by omega), List.getElem?_append_left hk, ih,
        List.take_append_of_le_length (by omega)]
    · rw [List.getElem?_concat_length, List.take_append_of_le_length (by omega),
        List.take_of_length_le (by omega), ← hlen, List.getElem?_concat_length]
      rfl
    · rw [List.getElem?_eq_none (by simp; omega), List.getElem?_eq_none (by simp; omega)]
      rfl

/-- A cell that has been hit was hit by one of the bits, at a time when no further collision had
happened than by now. -/
theorem exists_of_mem_hits {bits : List (Nat × Nat)} {c : Fin screenSize}
    (hc : c ∈ s.hits x y bits) :
    ∃ b ∈ bits, ∃ earlier, (s.screen.collides earlier → s.screen.collides (s.hits x y bits)) ∧
      c = s.hit x y earlier b := by
  induction bits using List.reverseRecOn with
  | nil => simp at hc
  | append_singleton bits b ih =>
    rw [hits_append_singleton, List.mem_append, List.mem_singleton] at hc
    rcases hc with hc | rfl
    · obtain ⟨a, ha, earlier, hcol, rfl⟩ := ih hc
      refine ⟨a, List.mem_append_left _ ha, earlier, fun h => ?_, rfl⟩
      simp [hcol h]
    · refine ⟨b, by simp, s.hits x y bits, fun h => ?_, rfl⟩
      simp [h]

/-- A coordinate register counts for at most one more after further collisions, never for less. -/
theorem coordinate_mono {earlier later : List (Fin screenSize)} (r : Nibble)
    (h : s.screen.collides earlier → s.screen.collides later) :
    s.coordinate r earlier ≤ s.coordinate r later ∧
      s.coordinate r later ≤ s.coordinate r earlier + 1 := by
  unfold coordinate
  split
  · cases he : s.screen.collides earlier <;> cases hl : s.screen.collides later <;> simp_all
  · omega

/-- A later bit hits another cell: positions grow, and by less than the size of the screen. -/
theorem hit_ne_hit {earlier later : List (Fin screenSize)} {a b : Nat × Nat}
    (h : s.screen.collides earlier → s.screen.collides later) (hab : Sprite.Before a b)
    (ha : a.1 < 16 ∧ a.2 < 8) (hb : b.1 < 16 ∧ b.2 < 8) :
    s.hit x y later b ≠ s.hit x y earlier a := by
  have hx := s.coordinate_mono x h
  have hy := s.coordinate_mono y h
  intro heq
  -- A coordinate grows by at most one, a row counts 64, and the whole by less than 2048.
  have hval : (s.coordinate x later + b.2 + 64 * (s.coordinate y later + b.1)) % 2048 =
      (s.coordinate x earlier + a.2 + 64 * (s.coordinate y earlier + a.1)) % 2048 :=
    congrArg Fin.val heq
  rcases hab with hrow | ⟨hrow, hbit⟩ <;> omega

/-- No cell is hit twice. -/
theorem nodup_hits {bits : List (Nat × Nat)} (hbits : bits.Pairwise Sprite.Before)
    (hbound : ∀ b ∈ bits, b.1 < 16 ∧ b.2 < 8) : (s.hits x y bits).Nodup := by
  induction bits using List.reverseRecOn with
  | nil => exact List.nodup_nil
  | append_singleton bits b ih =>
    obtain ⟨hpre, -, hlast⟩ := List.pairwise_append.1 hbits
    -- The last bit comes after all others, and so hits none of their cells.
    have hnew : s.hit x y (s.hits x y bits) b ∉ s.hits x y bits := by
      intro hmem
      obtain ⟨a, ha, earlier, hcol, heq⟩ := s.exists_of_mem_hits x y hmem
      exact s.hit_ne_hit x y hcol (hlast a ha b (by simp)) (hbound a (by simp [ha]))
        (hbound b (by simp)) heq
    rw [hits_append_singleton, List.nodup_append]
    refine ⟨ih hpre fun a ha => hbound a (by simp [ha]), by simp, ?_⟩
    rintro c hc d hd rfl
    exact hnew (List.mem_singleton.1 hd ▸ hc)

end

/-! ## The loop over the set bits -/

/-- The state once the given cells have been hit. -/
def afterHits (s : State) (cells : List (Fin screenSize)) : State :=
  { s with
    v := s.v.set flag (flagByte (s.screen.collides cells))
    screen := s.screen.flip cells }

section

variable (s : State) (x y : Nibble)

theorem afterHits_nil : s.afterHits [] = s.setReg flag 0 := by
  have h : s.screen.flip [] = s.screen := by
    ext c
    simp [Screen.flip]
  rw [afterHits, h]
  rfl

theorem reg_afterHits (r : Nibble) (cells : List (Fin screenSize)) :
    (s.afterHits cells).reg r =
      if flag = r then flagByte (s.screen.collides cells) else s.reg r := Cells.get_set ..

theorem reg_flag_afterHits (cells : List (Fin screenSize)) :
    (s.afterHits cells).reg flag = 1 ↔ s.screen.collides cells = true := by
  rw [reg_afterHits, if_pos rfl]
  cases s.screen.collides cells <;> decide

/-- While a sprite is drawn, a register is worth what its coordinate counts. -/
theorem toNat_reg_afterHits (r : Nibble) (cells : List (Fin screenSize)) :
    ((s.afterHits cells).reg r).toNat = s.coordinate r cells := by
  rw [reg_afterHits, coordinate]
  by_cases hr : r = flag
  · rw [if_pos hr, if_pos hr.symm, flagByte]
    split <;> rfl
  · rw [if_neg hr, if_neg (Ne.symm hr)]

theorem dotCell_afterHits (cells : List (Fin screenSize)) (b : Nat × Nat) :
    (s.afterHits cells).dotCell x y b.swap = s.hit x y cells b := by
  simp only [dotCell, hit, toNat_reg_afterHits, Prod.fst_swap, Prod.snd_swap]

theorem toNat_and_one (b : UInt8) : (b &&& 1).toNat = b.toNat % 2 := by
  rw [UInt8.toNat_and]
  exact Nat.and_one_is_mod _

/-- The flag takes up the low bit of the cell that is hit. -/
theorem flagByte_or (c : Bool) (old : UInt8) :
    flagByte c ||| (old &&& 1) = flagByte (c || decide (old.toNat % 2 = 1)) := by
  have hmod := toNat_and_one old
  rcases Nat.mod_two_eq_zero_or_one old.toNat with h | h
  · have hz : old &&& 1 = 0 := UInt8.toNat_inj.1 (hmod.trans h)
    rw [hz, h]
    cases c <;> rfl
  · have ho : old &&& 1 = 1 := UInt8.toNat_inj.1 (hmod.trans h)
    rw [ho, h]
    cases c <;> rfl

/-- A bit that hits a new cell adds it to the cells hit. -/
theorem plot_afterHits {cells : List (Fin screenSize)} {b : Nat × Nat}
    (hnew : s.hit x y cells b ∉ cells) :
    plot x y (s.afterHits cells) b.swap = s.afterHits (cells ++ [s.hit x y cells b]) := by
  -- A cell that has not been hit still has the value from before the instruction.
  have hold : (s.afterHits cells).screen.get (s.hit x y cells b) =
      s.screen.get (s.hit x y cells b) := by
    simp [afterHits, Screen.flip, hnew]
  have hflag : (s.afterHits cells).reg flag = flagByte (s.screen.collides cells) := by
    rw [reg_afterHits, if_pos rfl]
  simp only [plot, dotCell_afterHits, hold, hflag, flagByte_or]
  simp [afterHits, setReg, Screen.set_flip, Screen.collides]

theorem foldl_plot {bits : List (Nat × Nat)} (hnodup : (s.hits x y bits).Nodup) :
    (bits.map Prod.swap).foldl (plot x y) (s.setReg flag 0) = s.afterHits (s.hits x y bits) := by
  induction bits using List.reverseRecOn with
  | nil => exact s.afterHits_nil.symm
  | append_singleton bits b ih =>
    rw [hits_append_singleton, List.nodup_append] at hnodup
    obtain ⟨hpre, -, hne⟩ := hnodup
    have hnew : s.hit x y (s.hits x y bits) b ∉ s.hits x y bits := fun hmem =>
      hne _ hmem _ (List.mem_singleton_self _) rfl
    rw [List.map_append, List.foldl_append, ih hpre, hits_append_singleton]
    exact s.plot_afterHits x y hnew

/-- A sprite drawn from the index register complements the cells that its set bits hit. -/
theorem drawSprite_eq_afterHits (n : Nibble) :
    (s.hits x y (Sprite.setBits s.memory s.i n.val)).Nodup ∧
      s.drawSprite x y (s.memory.readBytes s.i n.val) =
        s.afterHits (s.hits x y (Sprite.setBits s.memory s.i n.val)) := by
  have hnodup := s.nodup_hits x y (Sprite.pairwise_setBits s.memory s.i n.val) fun b hb => by
    obtain ⟨hrow, hbit, -⟩ := Sprite.mem_setBits.1 hb
    omega
  refine ⟨hnodup, ?_⟩
  rw [drawSprite, Sprite.dots_readBytes, foldl_plot s x y hnodup]

end

end State

/-! ## The instruction -/

theorem State.execute_draw (s : State) (inputs : Inputs) (x y n : Nibble) :
    s.execute inputs
        (Instruction.ofWord (wordOfBytes (byteOfNibbles 0xD x) (byteOfNibbles y n))) =
      s.afterHits (s.hits x y (Sprite.setBits s.memory s.i n.val)) := by
  rw [Instruction.ofWord_of_fits .draw rfl rfl]
  exact (s.drawSprite_eq_afterHits x y n).2

/-- The whole effect of a draw instruction on any state. The set bits of its `n` sprite bytes hit
distinct cells. The cell of a bit is determined by the coordinate registers, of which the flag
counts as 0 until a cell with a set low bit has been hit and as 1 from then on. The cells hit are
complemented, the flag tells whether one of them had its low bit set, and nothing else changes. -/
theorem execute_draw_word (inputs : Inputs) (s : State) (x y n : Nibble) :
    let bits := Sprite.setBits s.memory s.i n.val
    let cells := s.hits x y bits
    cells.length = bits.length ∧ cells.Nodup ∧
      (∀ k row bit, bits[k]? = some (row, bit) → ∃ c, cells[k]? = some c ∧
        c.val = (s.coordinate x (cells.take k) + bit +
          64 * (s.coordinate y (cells.take k) + row)) % 2048) ∧
      s.execute inputs
          (Instruction.ofWord (wordOfBytes (byteOfNibbles 0xD x) (byteOfNibbles y n))) =
        { s with
          v := s.v.set State.flag
            (if cells.any fun c => (s.screen.get c).toNat % 2 = 1 then 1 else 0)
          screen := s.screen.flip cells } := by
  intro bits cells
  obtain ⟨hnodup, hdraw⟩ := s.drawSprite_eq_afterHits x y n
  refine ⟨s.length_hits x y bits, hnodup, ?_, ?_⟩
  · intro k row bit hk
    refine ⟨s.hit x y (cells.take k) (row, bit), ?_, rfl⟩
    rw [s.getElem?_hits x y bits k, hk]
    rfl
  · rw [Instruction.ofWord_of_fits .draw rfl rfl]
    refine hdraw.trans ?_
    simp [State.afterHits, Screen.collides, State.flagByte, cells, bits]

end Chip8
