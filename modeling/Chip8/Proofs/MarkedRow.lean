import Chip8.Proofs.Reachable
import Chip8.Proofs.ReportText

/-!
# The mark at the program counter

A report shows nine instructions, one every two bytes, and marks the one at the program counter. The
first row is four instructions before it, or at zero if there are not as many. So the rows miss a
program counter that is odd and has not four instructions before it: then no row is marked. In all
other cases one row is, and it shows the instruction that is executed next
(`Report.markedRows_eq`, `one_row_marks_next_iff`).
-/

set_option autoImplicit false

namespace Chip8

namespace Report

/-- A line begins with the mark. -/
def Marked (line : String) : Prop := line.toList.head? = some '>'

instance (line : String) : Decidable (Marked line) := inferInstanceAs (Decidable (_ = _))

theorem marked_rowLine_iff (pc : UInt16) (row : ListingRow) :
    Marked (rowLine pc row) ↔ row.address = pc := by
  by_cases h : row.address = pc
  · simp [Marked, rowLine, h]
  · simp [Marked, rowLine, h]

/-- The rows shown of a state. -/
def rows (s : State) : List ListingRow := s.listing (firstRow s.pc) rowCount

/-- The rows whose lines are marked. -/
def markedRows (s : State) : List ListingRow := (rows s).filter fun row => Marked (rowLine s.pc row)

/-- The program counter is the address of one of the rows. -/
def Shown (pc : UInt16) : Prop := pc.toNat % 2 = 0 ∨ 8 ≤ pc.toNat

instance (pc : UInt16) : Decidable (Shown pc) := inferInstanceAs (Decidable (_ ∨ _))

/-- As many instructions as are shown before the program counter, it is away from the first row. -/
theorem rowAddress_eq_pc_iff (pc : UInt16) {k : Nat} (hk : k < rowCount) :
    firstRow pc + 2 * UInt16.ofNat k = pc ↔ 2 * k = min pc.toNat 8 := by
  have hpc := pc.toNat_lt
  rw [rowCount] at hk
  rw [rowAddress_eq, ← UInt16.toNat_inj, UInt16.toNat_ofNat']
  omega

theorem filter_range_rowCount : ∀ c ≤ 8, (List.range rowCount).filter (fun k => 2 * k = c) =
    if c % 2 = 0 then [c / 2] else [] := by
  decide

/-- If the program counter is shown, its row is marked and no other one. Otherwise none is. -/
theorem markedRows_eq (s : State) :
    markedRows s = if Shown s.pc then [s.listingRow s.pc] else [] := by
  have hmarks : ∀ k ∈ List.range rowCount,
      decide (Marked (rowLine s.pc (s.listingRow (firstRow s.pc + 2 * UInt16.ofNat k)))) =
        decide (2 * k = min s.pc.toNat 8) := by
    intro k hk
    rw [decide_eq_decide, marked_rowLine_iff]
    exact rowAddress_eq_pc_iff s.pc (List.mem_range.1 hk)
  have hmarked : markedRows s =
      ((List.range rowCount).filter fun k => 2 * k = min s.pc.toNat 8).map fun k =>
        s.listingRow (firstRow s.pc + 2 * UInt16.ofNat k) := by
    rw [← List.filter_congr hmarks, markedRows, rows, State.listing, List.filter_map]
    simp only [Function.comp_def]
  rw [hmarked, filter_range_rowCount _ (Nat.min_le_right _ _)]
  by_cases h : Shown s.pc
  · have heven : min s.pc.toNat 8 % 2 = 0 := by
      unfold Shown at h
      omega
    have hrow : firstRow s.pc + 2 * UInt16.ofNat (min s.pc.toNat 8 / 2) = s.pc := by
      refine (rowAddress_eq_pc_iff s.pc ?_).2 (by omega)
      rw [rowCount]
      omega
    rw [if_pos heven, if_pos h, List.map_singleton, hrow]
  · have hodd : ¬ min s.pc.toNat 8 % 2 = 0 := by
      unfold Shown at h
      omega
    rw [if_neg hodd, if_neg h, List.map_nil]

end Report

/-- Where the report marks the instruction that is executed next. Of a machine that a monitor reaches
nine rows are printed, and after them the remaining registers. That exactly one of the rows is marked,
whose address is the program counter and whose word is the one that the next step executes, is so if
and only if the program counter is even or at least 8. Otherwise none of them is marked. -/
theorem one_row_marks_next_iff {d : Monitor} {pool : Pool} {id : MachineId} {m : Machine}
    (haccess : d.access pool = .ok (id, m)) :
    let s := m.state
    Prints (Report.printListing d pool) ((Report.rows s).map (Report.rowLine s.pc) ++
        [Report.registerLine s.i s.sp s.delay s.sound]) ∧
      (Report.rows s).length = 9 ∧
      ((∃ row, Report.markedRows s = [row] ∧ row.address = s.pc ∧ row.word = s.wordAt s.pc ∧
          ∀ i : StepInputs, (m.step i).lastPc = row.address ∧
            (m.step i).last = .ofWord row.word) ↔
        s.pc.toNat % 2 = 0 ∨ 8 ≤ s.pc.toNat) ∧
      (¬ (s.pc.toNat % 2 = 0 ∨ 8 ≤ s.pc.toNat) → Report.markedRows s = []) := by
  intro s
  have hrows : (Report.rows s).length = 9 := by simp [Report.rows, State.listing, Report.rowCount]
  have hmarked := Report.markedRows_eq s
  refine ⟨Report.prints_printListing s (Monitor.read_of_access haccess), hrows, ?_, ?_⟩
  · constructor
    · rintro ⟨row, hrow, -⟩
      refine Decidable.byContradiction fun (hmissed : ¬ Report.Shown s.pc) => ?_
      rw [if_neg hmissed] at hmarked
      exact List.cons_ne_nil row [] (hrow.symm.trans hmarked)
    · intro (hshown : Report.Shown s.pc)
      rw [if_pos hshown] at hmarked
      exact ⟨s.listingRow s.pc, hmarked, rfl, rfl, fun i => ⟨m.step_lastPc i, m.step_last i⟩⟩
  · intro (hmissed : ¬ Report.Shown s.pc)
    rw [hmarked, if_neg hmissed]

/-- A machine at the largest even address. -/
def Machine.atLargestEven : Machine :=
  { Machine.new with state := { State.initial with pc := 0xFFFE } }

/-- Its row is marked. The rows after it are those from zero on. -/
theorem largest_even_row_is_marked :
    let m := Machine.atLargestEven
    let pool := (Pool.empty.add m).2
    (⟨some 0⟩ : Monitor).access pool = .ok (0, m) ∧
      (Report.rows m.state).map (fun row => row.address.toNat) =
        [65526, 65528, 65530, 65532, 65534, 0, 2, 4, 6] ∧
      m.state.pc.toNat = 65534 ∧
      ∃ row, Report.markedRows m.state = [row] ∧ row.address = m.state.pc ∧
        row.word = m.state.wordAt m.state.pc ∧
        ∀ i : StepInputs, (m.step i).lastPc = row.address ∧ (m.step i).last = .ofWord row.word := by
  intro m pool
  have haccess : (⟨some 0⟩ : Monitor).access pool = .ok (0, m) := rfl
  have hshown : m.state.pc.toNat % 2 = 0 ∨ 8 ≤ m.state.pc.toNat := by decide
  exact ⟨haccess, by decide +kernel, by decide,
    (one_row_marks_next_iff haccess).2.2.1.2 hshown⟩

/-- The machine of a program whose first instruction is a jump to the address 1, after that jump. -/
def Machine.atOne : Machine :=
  (Machine.new.loadProgram [0x10, 0x01]).2.step ⟨⟨Keypad.none, 0⟩, 0, true⟩

/-- A program can come to an odd address below 8. Of the nine rows that are printed then none is
marked: the first one is at zero, and the program counter is between two rows. -/
theorem row_at_one_is_not_marked :
    let m := Machine.atOne
    let pool := (Pool.empty.add m).2
    m.Reachable ∧ m.state.pc = 1 ∧
      Prints (Report.printListing ⟨some 0⟩ pool)
        ((Report.rows m.state).map (Report.rowLine m.state.pc) ++
          [Report.registerLine m.state.i m.state.sp m.state.delay m.state.sound]) ∧
      ∀ row ∈ Report.rows m.state, ¬ Report.Marked (Report.rowLine m.state.pc row) := by
  intro m pool
  have haccess : (⟨some 0⟩ : Monitor).access pool = .ok (0, m) := rfl
  have hpc : m.state.pc = 1 := by decide +kernel
  have hmissed : ¬ Report.Shown m.state.pc := by
    rw [hpc]
    decide
  have hnone := Report.markedRows_eq m.state
  rw [if_neg hmissed, Report.markedRows, List.filter_eq_nil_iff] at hnone
  refine ⟨.step _ (.loadProgram rfl), hpc,
    Report.prints_printListing m.state (Monitor.read_of_access haccess), fun row hrow hmark => ?_⟩
  exact hnone row hrow (decide_eq_true hmark)

end Chip8
