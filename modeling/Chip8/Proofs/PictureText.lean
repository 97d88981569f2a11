import Chip8.Proofs.ReportText
import Chip8.Proofs.ScreenCells

/-!
# What a picture tells of its screen

Cut at its newlines, the picture of a screen is its rows, one sign for each cell
(`Screen.splitOn_picture`). So the picture tells which cells are lit, and nothing else
(`Screen.picture_eq_iff`). A cell is lit by any byte but zero. But the screens of operated machines
are clean, so that their pictures tell all of them (`picture_shows_lit_cells`).
-/

set_option autoImplicit false

namespace Chip8

theorem map_range_eq_ofFn {α : Type} (f : Nat → α) (n : Nat) :
    (List.range n).map f = List.ofFn fun i : Fin n => f i := by
  rw [List.ofFn_eq_map, ← List.map_coe_finRange_eq_range, List.map_map]
  rfl

namespace Screen

theorem sign_eq_sign_iff {a b : UInt8} : sign a = sign b ↔ (a ≠ 0 ↔ b ≠ 0) := by
  rw [not_iff_not]
  unfold sign
  split <;> split <;> simp_all

/-- On the screen no coordinate is reduced. -/
theorem cell_eq_mk {x y : Nat} (hx : x < 64) (hy : y < 32) :
    cell x y = ⟨x + 64 * y, by show _ < 2048; omega⟩ :=
  Fin.ext (Nat.mod_eq_of_lt (by show x + 64 * y < 2048; omega))

theorem exists_cell_eq (c : Fin screenSize) : ∃ y < 32, ∃ x < 64, cell x y = c := by
  have hc : c.val < 2048 := c.isLt
  refine ⟨c.val / 64, by omega, c.val % 64, by omega, ?_⟩
  rw [cell_eq_mk (by omega) (by omega), Fin.ext_iff]
  exact Nat.mod_add_div c.val 64

variable (s t : Screen)

/-- A row, cell by cell. -/
theorem rowText_eq_ofFn {y : Nat} (hy : y < 32) :
    s.rowText y = List.ofFn fun x : Fin 64 =>
      if s.get ⟨x.val + 64 * y, by show _ < 2048; omega⟩ = 0 then ' ' else '@' := by
  rw [rowText, map_range_eq_ofFn]
  congr 1
  funext x
  rw [sign, pixel, cell_eq_mk x.isLt hy]

/-- The rows, cell by cell. -/
theorem rowTexts_eq_ofFn :
    s.rowTexts = List.ofFn fun y : Fin 32 => List.ofFn fun x : Fin 64 =>
      if s.get ⟨x.val + 64 * y.val, by show _ < 2048; omega⟩ = 0 then ' ' else '@' := by
  rw [rowTexts, map_range_eq_ofFn]
  congr 1
  funext y
  exact s.rowText_eq_ofFn y.isLt

/-- No sign is a newline, so the rows can be read back from the picture. -/
theorem splitOn_picture : s.picture.toList.splitOn '\n' = s.rowTexts := by
  have hline : ∀ row ∈ s.rowTexts, '\n' ∉ row := by
    intro row hrow
    obtain ⟨y, -, rfl⟩ := List.mem_map.1 hrow
    have honeLine := Report.oneLine_rowText s y
    rwa [OneLine, String.toList_ofList] at honeLine
  rw [picture, String.toList_ofList]
  exact List.splitOn_intercalate '\n' hline (by simp [rowTexts])

theorem picture_eq_iff_rowTexts : s.picture = t.picture ↔ s.rowTexts = t.rowTexts := by
  constructor
  · intro h
    rw [← s.splitOn_picture, h, t.splitOn_picture]
  · intro h
    rw [picture, h, picture]

/-- The picture shows which cells are lit. -/
theorem picture_eq_iff : s.picture = t.picture ↔ ∀ c, s.Lit c ↔ t.Lit c := by
  rw [picture_eq_iff_rowTexts]
  simp only [rowTexts, rowText, List.map_inj_left, List.mem_range, sign_eq_sign_iff]
  constructor
  · intro h c
    obtain ⟨y, hy, x, hx, rfl⟩ := exists_cell_eq c
    exact h y hy x hx
  · intro h y _ x _
    exact h (cell x y)

variable {s t}

/-- On clean screens a lit cell holds one byte only. -/
theorem Clean.eq_of_lit_iff (hs : s.Clean) (ht : t.Clean) (h : ∀ c, s.Lit c ↔ t.Lit c) : s = t := by
  ext c
  have hc := h c
  simp only [Lit] at hc
  -- The cell holds 0 or 1 on either screen, so being lit decides which.
  rcases hs c with hsc | hsc
  · rcases ht c with htc | htc
    · rw [hsc, htc]
    · simp [hsc, htc] at hc
  · rcases ht c with htc | htc
    · simp [hsc, htc] at hc
    · rw [hsc, htc]

end Screen

/-- The picture of a machine's screen is faithful. On any machine, cut at its newlines it is 32 rows
of 64 signs, and the sign in column `x` of row `y` is `@` if the cell `x + 64 * y` is lit and else a
blank. The pictures of two machines are equal exactly if the same cells are lit. If nobody wrote to
their states from outside, they are equal exactly if the screens are. -/
theorem picture_shows_lit_cells :
    (∀ m : Machine, m.state.screen.picture.toList.splitOn '\n' =
        List.ofFn fun y : Fin 32 => List.ofFn fun x : Fin 64 =>
          if m.state.screen.get ⟨x.val + 64 * y.val, by show _ < 2048; omega⟩ = 0
            then ' ' else '@') ∧
      (∀ m m' : Machine, m.state.screen.picture = m'.state.screen.picture ↔
        ∀ c, m.state.screen.get c ≠ 0 ↔ m'.state.screen.get c ≠ 0) ∧
      ∀ m m' : Machine, m.Operated → m'.Operated →
        (m.state.screen.picture = m'.state.screen.picture ↔ m.state.screen = m'.state.screen) := by
  refine ⟨fun m => ?_, fun m m' => Screen.picture_eq_iff _ _, fun m m' hm hm' => ?_⟩
  · rw [Screen.splitOn_picture, Screen.rowTexts_eq_ofFn]
  · constructor
    · intro hpicture
      exact hm.clean.eq_of_lit_iff hm'.clean ((Screen.picture_eq_iff _ _).1 hpicture)
    · intro hscreen
      rw [hscreen]

/-- The picture of a glyph differs from that of a dark screen, because the screens differ. -/
theorem cornerGlyph_is_visible :
    cornerGlyph.Operated ∧ Machine.new.Operated ∧
      (cornerGlyph.state.screen.picture = Machine.new.state.screen.picture ↔
        cornerGlyph.state.screen = Machine.new.state.screen) ∧
      cornerGlyph.state.screen.picture ≠ Machine.new.state.screen.picture := by
  have hoperated : cornerGlyph.Operated := .makes (.loadProgram _ .new) (.step _ .none)
  have hiff := picture_shows_lit_cells.2.2 cornerGlyph .new hoperated .new
  refine ⟨hoperated, .new, hiff, fun hpicture => ?_⟩
  have hcell : cornerGlyph.state.screen.get 0 = Machine.new.state.screen.get 0 := by
    rw [hiff.1 hpicture]
  exact absurd hcell (by decide +kernel)

end Chip8
