import Chip8.Proofs.Frame
import Mathlib.Algebra.Ring.Parity

/-!
# Sprites laid over each other

A sprite whose coordinates are not in the flag covers cells that do not depend on what is on the
screen, and drawing it complements them. It changes nothing but the screen and the flag, so sprites
drawn after it cover the cells that they would have covered before. Whatever sprites are drawn, a
cell ends up complemented if and only if an odd number of them cover it (`Screen.get_foldl_flip`,
`State.screen_executeWords`). So their order does not matter, and two equal ones cancel out
(`overlays_commute_and_cancel`).
-/

set_option autoImplicit false

namespace Chip8

/-- A word draws a sprite at coordinates that are not in the flag. -/
def Sprite.Overlay (w : UInt16) : Prop :=
  Instruction.HasForm [⟨0xD, none, none⟩] w ∧ (Operand.ofWord w).x ≠ State.flag ∧
    (Operand.ofWord w).y ≠ State.flag

instance (w : UInt16) : Decidable (Sprite.Overlay w) :=
  inferInstanceAs (Decidable (_ ∧ _))

/-! ## Complementing cells -/

namespace Screen

/-- No byte agrees with its complement in the low bit. -/
theorem toNat_not_mod_two (b : UInt8) : (~~~ b).toNat % 2 = 1 ↔ b.toNat % 2 ≠ 1 := by
  have hb := b.toNat_lt
  rw [UInt8.toNat_not, UInt8.size]
  omega

/-- If some cells are complemented twice, one of the two times finds a low bit set. -/
theorem collides_or_collides_flip (s : Screen) (cells : List (Fin screenSize)) :
    s.collides cells = true ∨ (s.flip cells).collides cells = true ↔ ∃ c, c ∈ cells := by
  simp only [collides, List.any_eq_true, decide_eq_true_eq]
  constructor
  · rintro (⟨c, hc, -⟩ | ⟨c, hc, -⟩)
    · exact ⟨c, hc⟩
    · exact ⟨c, hc⟩
  · rintro ⟨c, hc⟩
    by_cases hbit : (s.get c).toNat % 2 = 1
    · exact .inl ⟨c, hc, hbit⟩
    · refine .inr ⟨c, hc, ?_⟩
      rw [get_flip, if_pos hc, toNat_not_mod_two]
      exact hbit

/-- After any number of complements, those cells are complemented that an odd number of them took
in. -/
theorem get_foldl_flip (s : Screen) (layers : List (List (Fin screenSize))) (c : Fin screenSize) :
    (layers.foldl flip s).get c =
      if Odd (layers.countP (c ∈ ·)) then ~~~ s.get c else s.get c := by
  induction layers generalizing s with
  | nil => simp
  | cons cells layers ih =>
    rw [List.foldl_cons, ih, get_flip, List.countP_cons]
    by_cases hc : c ∈ cells
    · by_cases hodd : Odd (layers.countP (c ∈ ·)) <;> simp [hc, hodd, Nat.odd_add_one]
    · simp [hc]

end Screen

/-! ## Cells that a sprite covers -/

namespace State

section

variable (s : State)

/-- The cells that a sprite covers, if its coordinates are not in the flag. -/
def covered (o : Operand) : List (Fin screenSize) :=
  (Sprite.setBits s.memory s.i o.n.val).map fun b =>
    Screen.cell ((s.reg o.x).toNat + b.2) ((s.reg o.y).toNat + b.1)

theorem hits_eq_map {x y : Nibble} (hx : x ≠ flag) (hy : y ≠ flag) (bits : List (Nat × Nat)) :
    s.hits x y bits =
      bits.map fun b => Screen.cell ((s.reg x).toNat + b.2) ((s.reg y).toNat + b.1) := by
  induction bits using List.reverseRecOn with
  | nil => rfl
  | append_singleton bits b ih =>
    rw [hits_append_singleton, ih, List.map_append, List.map_singleton, hit, coordinate,
      coordinate, if_neg hx, if_neg hy]

/-- A sprite covers a cell if and only if one of its bits is set. -/
theorem exists_mem_covered_iff (o : Operand) :
    (∃ c, c ∈ s.covered o) ↔ ∃ row < o.n.val, ∃ bit < 8,
      (Sprite.rowByte s.memory s.i row).toNat.testBit (7 - bit) = true := by
  constructor
  · rintro ⟨c, hc⟩
    obtain ⟨⟨row, bit⟩, hb, -⟩ := List.mem_map.1 hc
    obtain ⟨hrow, hbit, hset⟩ := Sprite.mem_setBits.1 hb
    exact ⟨row, hrow, bit, hbit, hset⟩
  · rintro ⟨row, hrow, bit, hbit, hset⟩
    have hb : (row, bit) ∈ Sprite.setBits s.memory s.i o.n.val :=
      Sprite.mem_setBits.2 ⟨hrow, hbit, hset⟩
    exact ⟨_, List.mem_map_of_mem hb⟩

/-- A sprite complements the cells that it covers. -/
theorem execute_overlay {w : UInt16} (hw : Sprite.Overlay w) (inputs : Inputs) :
    s.execute inputs (.ofWord w) = s.afterHits (s.covered (.ofWord w)) := by
  obtain ⟨hform, hx, hy⟩ := hw
  rw [Instruction.ofWord_eq_of_hasForm .draw rfl hform, covered, ← s.hits_eq_map hx hy]
  exact (s.drawSprite_eq_afterHits _ _ _).2

/-- A sprite does not move the others. -/
theorem covered_afterHits {w : UInt16} (hw : Sprite.Overlay w) (cells : List (Fin screenSize)) :
    (s.afterHits cells).covered (.ofWord w) = s.covered (.ofWord w) := by
  obtain ⟨-, hx, hy⟩ := hw
  rw [covered, reg_afterHits, if_neg hx.symm, reg_afterHits, if_neg hy.symm]
  rfl

/-- All sprites complement the cells that they would cover if drawn first. -/
theorem screen_executeWords {ws : List (Inputs × UInt16)} (hws : ∀ w ∈ ws, Sprite.Overlay w.2) :
    (s.executeWords ws).screen =
      (ws.map fun w => s.covered (.ofWord w.2)).foldl Screen.flip s.screen := by
  induction ws generalizing s with
  | nil => rfl
  | cons w ws ih =>
    obtain ⟨hw, hws⟩ := List.forall_mem_cons.1 hws
    have hcovered : ∀ p ∈ ws, (s.afterHits (s.covered (.ofWord w.2))).covered (.ofWord p.2) =
        s.covered (.ofWord p.2) := fun p hp => s.covered_afterHits (hws p hp) _
    rw [executeWords_cons, s.execute_overlay hw, ih _ hws, List.map_congr_left hcovered,
      List.map_cons, List.foldl_cons]
    rfl

/-- How often each word is drawn decides about the screen, and of that only whether it is odd. -/
theorem screen_executeWords_congr {ws ws' : List (Inputs × UInt16)}
    (hws : ∀ w ∈ ws, Sprite.Overlay w.2) (hws' : ∀ w ∈ ws', Sprite.Overlay w.2)
    (h : ∀ p : UInt16 → Bool,
      Odd ((ws.map Prod.snd).countP p) ↔ Odd ((ws'.map Prod.snd).countP p)) :
    (s.executeWords ws).screen = (s.executeWords ws').screen := by
  rw [s.screen_executeWords hws, s.screen_executeWords hws']
  ext c
  have hc := h fun w => c ∈ s.covered (.ofWord w)
  simp only [List.countP_map, Function.comp_def] at hc
  rw [Screen.get_foldl_flip, Screen.get_foldl_flip]
  simp only [List.countP_map, Function.comp_def, hc]

theorem screen_executeWords_of_perm {ws ws' : List (Inputs × UInt16)}
    (hws : ∀ w ∈ ws, Sprite.Overlay w.2) (hperm : (ws'.map Prod.snd).Perm (ws.map Prod.snd)) :
    (s.executeWords ws').screen = (s.executeWords ws).screen := by
  have hws' : ∀ w ∈ ws', Sprite.Overlay w.2 := by
    intro w hw
    obtain ⟨q, hq, hword⟩ := List.mem_map.1 (hperm.mem_iff.1 (List.mem_map_of_mem hw))
    rw [← hword]
    exact hws q hq
  refine s.screen_executeWords_congr hws' hws fun p => ?_
  rw [hperm.countP_eq]

/-- Two equal words count twice for the cells that they cover, and not at all for the others. -/
theorem screen_executeWords_cancel (before between after : List (Inputs × UInt16)) {i j : Inputs}
    {w : UInt16}
    (hws : ∀ p ∈ before ++ (i, w) :: between ++ (j, w) :: after, Sprite.Overlay p.2) :
    (s.executeWords (before ++ (i, w) :: between ++ (j, w) :: after)).screen =
      (s.executeWords (before ++ between ++ after)).screen := by
  have hrest : ∀ p ∈ before ++ between ++ after, Sprite.Overlay p.2 := by
    intro p hp
    apply hws
    simp only [List.mem_append, List.mem_cons] at hp ⊢
    tauto
  refine s.screen_executeWords_congr hws hrest fun p => ?_
  simp only [List.map_append, List.map_cons, List.countP_append, List.countP_cons, Nat.odd_iff]
  split <;> omega

/-- Of two times that a sprite is drawn, one finds a low bit set if the sprite covers a cell. -/
theorem flag_executed_twice (i j : Inputs) {w : UInt16} (hw : Sprite.Overlay w) :
    (s.execute i (.ofWord w)).reg flag = 1 ∨
        ((s.execute i (.ofWord w)).execute j (.ofWord w)).reg flag = 1 ↔
      ∃ c, c ∈ s.covered (.ofWord w) := by
  rw [execute_overlay _ hw j, s.execute_overlay hw i, covered_afterHits _ hw, reg_flag_afterHits,
    reg_flag_afterHits]
  exact s.screen.collides_or_collides_flip _

end

end State

/-- Sprites commute and cancel out. Take any state, whatever its screen, and any draw words whose
coordinates are not in the flag. In any order, with any inputs, they leave the same screen. Without
two equal ones, wherever they stand, the others leave the same screen. A word drawn twice restores
every cell, and one of the two times sets the flag if and only if one of the bits of its sprite is
set. -/
theorem overlays_commute_and_cancel (s : State) :
    (∀ ws ws' : List (Inputs × UInt16), (∀ w ∈ ws, Sprite.Overlay w.2) →
        (ws'.map Prod.snd).Perm (ws.map Prod.snd) →
        (s.executeWords ws').screen = (s.executeWords ws).screen) ∧
      (∀ (before between after : List (Inputs × UInt16)) (i j : Inputs) (w : UInt16),
        (∀ p ∈ before ++ (i, w) :: between ++ (j, w) :: after, Sprite.Overlay p.2) →
        (s.executeWords (before ++ (i, w) :: between ++ (j, w) :: after)).screen =
          (s.executeWords (before ++ between ++ after)).screen) ∧
      ∀ (i j : Inputs) (w : UInt16), Sprite.Overlay w →
        let t := s.execute i (.ofWord w)
        let u := t.execute j (.ofWord w)
        (∀ c, u.screen.get c = s.screen.get c) ∧
          (t.reg State.flag = 1 ∨ u.reg State.flag = 1 ↔
            ∃ row < (Operand.ofWord w).n.val, ∃ bit < 8,
              (Sprite.rowByte s.memory s.i row).toNat.testBit (7 - bit) = true) := by
  refine ⟨fun ws ws' hws hperm => s.screen_executeWords_of_perm hws hperm,
    fun before between after i j w hws => s.screen_executeWords_cancel before between after hws,
    fun i j w hw => ?_⟩
  intro t u
  have hpair : ∀ p ∈ [(i, w), (j, w)], Sprite.Overlay p.2 := by
    simp [hw]
  have hscreen : u.screen = s.screen :=
    s.screen_executeWords_cancel [] [] [] hpair
  refine ⟨fun c => by rw [hscreen], ?_⟩
  rw [← s.exists_mem_covered_iff]
  exact s.flag_executed_twice i j hw

/-- A state with a screen that is neither dark nor lit, and coordinates near its last corner. -/
def State.scribbled : State :=
  { State.initial with
    v := .ofFn fun r => 58 + UInt8.ofNat r.val
    screen := .replicate screenSize 0x5A }

/-- Two equal sprites that run over the edges, with another one before, between or after them. -/
theorem scribbled_overlays_cancel :
    let s := State.scribbled
    let i : Inputs := ⟨Keypad.none, 0⟩
    let j : Inputs := ⟨Keypad.ofSlots [4], 1⟩
    (∀ w ∈ [(i, 0xD125), (i, 0xD34F), (j, 0xD125)], Sprite.Overlay w.2) ∧
      (s.executeWords [(i, 0xD34F), (i, 0xD125), (i, 0xD125)]).screen =
        (s.executeWords [(i, 0xD125), (i, 0xD34F), (j, 0xD125)]).screen ∧
      (s.executeWords [(i, 0xD125), (i, 0xD34F), (j, 0xD125)]).screen =
        (s.executeWords [(i, 0xD34F)]).screen ∧
      (∀ c, ((s.execute i (.ofWord 0xD125)).execute j (.ofWord 0xD125)).screen.get c = 0x5A) ∧
      ((s.execute i (.ofWord 0xD125)).reg State.flag = 1 ∨
        ((s.execute i (.ofWord 0xD125)).execute j (.ofWord 0xD125)).reg State.flag = 1) := by
  intro s i j
  have hfirst : Sprite.Overlay 0xD125 := by decide
  have hsecond : Sprite.Overlay 0xD34F := by decide
  have hws : ∀ w ∈ [(i, 0xD125), (i, 0xD34F), (j, 0xD125)], Sprite.Overlay w.2 := by
    simp [hfirst, hsecond]
  obtain ⟨horder, hcancel, htwice⟩ := overlays_commute_and_cancel s
  obtain ⟨hscreen, hflag⟩ := htwice i j 0xD125 hfirst
  refine ⟨hws, horder _ _ hws (.swap _ _ _), hcancel [] [(i, 0xD34F)] [] i j 0xD125 hws,
    fun c => (hscreen c).trans (Cells.get_replicate _ c), hflag.2 ⟨0, by decide, 0, by decide, ?_⟩⟩
  -- The first glyph of the font begins with a set bit.
  decide +kernel

end Chip8
