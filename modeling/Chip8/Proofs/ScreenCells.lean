import Chip8.Proofs.Frame
import Chip8.Proofs.Operation
import Mathlib.Data.Fintype.Card

/-!
# Cells that are dark or lit

A cell counts as lit if it is not zero, while drawing complements whole bytes and looks at their low
bits for a collision. The two agree on a clean screen, on which every cell is `0x00` or `0xFF`.
Nothing but clearing and drawing changes the screen, and both leave it clean, so every operated
machine has a clean screen.

On a clean screen the flag after a draw tells exactly whether a lit cell was turned off, and a draw
changes as many cells as its sprite has set bits (`clean_and_draw_exact`).
-/

set_option autoImplicit false

namespace Chip8

namespace Screen

/-- Every cell is wholly dark or wholly lit. -/
def Clean (s : Screen) : Prop := ∀ c, s.get c = 0x00 ∨ s.get c = 0xFF

/-- A cell is lit. -/
def Lit (s : Screen) (c : Fin screenSize) : Prop := s.get c ≠ 0

theorem clean_dark : dark.Clean := fun c => .inl (Cells.get_replicate 0 c)

variable {s : Screen} (cells : List (Fin screenSize))

/-- Complementing swaps dark and lit cells. -/
theorem Clean.flip (h : s.Clean) : (s.flip cells).Clean := by
  intro c
  rw [get_flip]
  split
  · rcases h c with hdark | hlit
    · exact .inr (by rw [hdark]; rfl)
    · exact .inl (by rw [hlit]; rfl)
  · exact h c

/-- On a clean screen the lit cells are those with a set low bit. -/
theorem Clean.lit_iff (h : s.Clean) (c : Fin screenSize) :
    s.Lit c ↔ (s.get c).toNat % 2 = 1 := by
  rw [Lit]
  rcases h c with hdark | hlit
  · rw [hdark]
    decide
  · rw [hlit]
    decide

/-- On a clean screen the cells that are turned off are the lit ones among those complemented. -/
theorem Clean.turned_off_iff (h : s.Clean) (c : Fin screenSize) :
    s.Lit c ∧ ¬ (s.flip cells).Lit c ↔ c ∈ cells ∧ s.Lit c := by
  rw [Lit, Lit, get_flip]
  by_cases hc : c ∈ cells
  · rw [if_pos hc]
    rcases h c with hdark | hlit
    · simp [hdark]
    · have hoff : ~~~ s.get c = 0 := by
        rw [hlit]
        rfl
      simp [hoff, hc]
  · simp [hc]

/-- On a clean screen a collision is a lit cell that is turned off. -/
theorem Clean.collides_iff (h : s.Clean) :
    s.collides cells = true ↔ ∃ c, s.Lit c ∧ ¬ (s.flip cells).Lit c := by
  rw [exists_congr (h.turned_off_iff cells)]
  simp only [h.lit_iff, collides, List.any_eq_true, decide_eq_true_eq]

/-- No byte is its own complement, so the cells that change are those that are complemented. -/
theorem get_flip_ne_iff (c : Fin screenSize) : (s.flip cells).get c ≠ s.get c ↔ c ∈ cells := by
  have hne : ~~~ s.get c ≠ s.get c := by
    intro heq
    have hnat := congrArg UInt8.toNat heq
    rw [UInt8.toNat_not, UInt8.size] at hnat
    omega
  rw [get_flip]
  split
  · next hc => exact iff_of_true hne hc
  · next hc => exact iff_of_false (fun h => h rfl) hc

theorem card_changed_flip (hnodup : cells.Nodup) :
    (Finset.univ.filter fun c => (s.flip cells).get c ≠ s.get c).card = cells.length := by
  have hchanged : (Finset.univ.filter fun c => (s.flip cells).get c ≠ s.get c) =
      cells.toFinset := by
    ext c
    simp only [Finset.mem_filter_univ, get_flip_ne_iff, List.mem_toFinset]
  rw [hchanged, List.toFinset_card_of_nodup hnodup]

end Screen

/-! ## Clean screens stay clean -/

/-- No instruction leaves a cell half lit. -/
theorem State.clean_execute {s : State} (h : s.screen.Clean) (inputs : Inputs)
    (instruction : Instruction) : (s.execute inputs instruction).screen.Clean := by
  obtain ⟨op, o⟩ := instruction
  -- The screen belongs to two operations.
  by_cases hclear : op = .clearScreen
  · rw [hclear]
    exact Screen.clean_dark
  by_cases hdraw : op = .draw
  · rw [hdraw]
    show (s.drawSprite o.x o.y (s.memory.readBytes s.i o.n.val)).screen.Clean
    rw [(s.drawSprite_eq_afterHits o.x o.y o.n).2]
    exact h.flip _
  · have hkept := (s.execute_writesOnly inputs ⟨op, o⟩).screen (by simp [hclear, hdraw])
    rw [hkept]
    exact h

theorem Machine.Operated.clean {m : Machine} (h : m.Operated) : m.state.screen.Clean := by
  refine h.induction (P := fun m => m.state.screen.Clean) Screen.clean_dark
    (fun _ _ => Screen.clean_dark) (fun _ _ hm => hm) ?_
  intro m i hm
  have hfallen : (m.state.countDown (m.ticksAt i.now i.frozen)).screen.Clean := hm
  rw [step_state]
  exact State.clean_execute hfallen i.toInputs m.next

/-- The screen and the flag are exact. Whatever has been done to a machine, except for a write to
its state from outside, every cell of its screen is `0x00` or `0xFF`. On any such screen, a draw
instruction sets the flag exactly if some cell that was lit is dark afterwards, and changes as many
cells as there are set bits in its `n` sprite bytes. -/
theorem clean_and_draw_exact :
    (∀ m : Machine, m.Operated → ∀ c, m.state.screen.get c = 0x00 ∨ m.state.screen.get c = 0xFF) ∧
      ∀ s : State, (∀ c, s.screen.get c = 0x00 ∨ s.screen.get c = 0xFF) →
        ∀ (inputs : Inputs) (x y n : Nibble),
          let t := s.execute inputs
            (Instruction.ofWord (wordOfBytes (byteOfNibbles 0xD x) (byteOfNibbles y n)))
          (t.reg State.flag = 1 ↔ ∃ c, s.screen.Lit c ∧ ¬ t.screen.Lit c) ∧
            (Finset.univ.filter fun c => t.screen.get c ≠ s.screen.get c).card =
              (Sprite.setBits s.memory s.i n.val).length := by
  refine ⟨fun m h => h.clean, ?_⟩
  intro s hclean inputs x y n t
  have hscreen : s.screen.Clean := hclean
  -- The cells hit are complemented once each, also where the flag is a coordinate.
  have hnodup := (s.drawSprite_eq_afterHits x y n).1
  have ht : t = s.afterHits (s.hits x y (Sprite.setBits s.memory s.i n.val)) :=
    s.execute_draw inputs x y n
  have hflag : t.reg State.flag = 1 ↔
      s.screen.collides (s.hits x y (Sprite.setBits s.memory s.i n.val)) = true := by
    rw [ht, State.reg_flag_afterHits]
  constructor
  · rw [hflag, hscreen.collides_iff, ht]
    rfl
  · rw [ht, ← s.length_hits x y, ← Screen.card_changed_flip _ hnodup]
    rfl

/-- A machine that has drawn the first glyph of the font in a corner of its screen. -/
def cornerGlyph : Machine :=
  (Machine.new.loadProgram [0xD0, 0x05]).2.step ⟨⟨Keypad.none, 0⟩, 0, false⟩

theorem cornerGlyph_erased :
    let s := cornerGlyph.state
    let t := s.execute ⟨Keypad.none, 0⟩
      (Instruction.ofWord (wordOfBytes (byteOfNibbles 0xD 0) (byteOfNibbles 0 5)))
    cornerGlyph.Operated ∧ (∀ c, s.screen.get c = 0x00 ∨ s.screen.get c = 0xFF) ∧
      t.reg State.flag = 1 ∧ (∃ c, s.screen.Lit c ∧ ¬ t.screen.Lit c) ∧
      (Finset.univ.filter fun c => t.screen.get c ≠ s.screen.get c).card = 14 := by
  intro s t
  have hoperated : cornerGlyph.Operated := .makes (.loadProgram _ .new) (.step _ .none)
  have hclean := clean_and_draw_exact.1 cornerGlyph hoperated
  obtain ⟨hflag, hcard⟩ := clean_and_draw_exact.2 s hclean ⟨Keypad.none, 0⟩ 0 0 5
  have hset : t.reg State.flag = 1 := by decide +kernel
  have hbits : (Sprite.setBits s.memory s.i (5 : Nibble).val).length = 14 := by decide +kernel
  exact ⟨hoperated, hclean, hset, hflag.1 hset, hcard.trans hbits⟩

end Chip8
