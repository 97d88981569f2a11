import Chip8.Report

/-!
# The lines of a report

A report is forty-two lines (`Report.lines`): the rows of the screen, the instructions around the
program counter, and the remaining registers. None of them has a newline in it, so the lines are
known from the text (`Report.oneLine_of_mem_lines`). A monitor that reaches its machine prints these
lines of the machine's state, and nothing ends the printing (`Report.prints_print`).
-/

set_option autoImplicit false

namespace Chip8

/-! ## Texts of one line -/

/-- There is no newline in a text. -/
def OneLine (text : String) : Prop := '\n' ∉ text.toList

instance (text : String) : Decidable (OneLine text) := inferInstanceAs (Decidable (_ ∉ _))

theorem oneLine_append {s t : String} : OneLine (s ++ t) ↔ OneLine s ∧ OneLine t := by
  rw [OneLine, String.toList_append, List.mem_append, not_or]
  rfl

theorem oneLine_numeral (width n : Nat) : OneLine (Hexadecimal.numeral width n) := by
  have hdigit : ∀ d, Hexadecimal.digit d ≠ '\n' := by decide
  rw [OneLine, Hexadecimal.numeral, String.toList_ofList]
  intro h
  obtain ⟨d, -, hd⟩ := List.mem_map.1 h
  exact hdigit d hd

theorem oneLine_repr (n : Nat) : OneLine n.repr := by
  rw [OneLine, Nat.toList_repr]
  intro h
  have hdigit := Nat.isDigit_of_mem_toDigits (by decide) (by decide) h
  exact Bool.noConfusion hdigit

/-- The text of an instruction is put together from given characters, names and numbers. -/
theorem oneLine_mnemonic (i : Instruction) : OneLine i.mnemonic := by
  obtain ⟨op, o⟩ := i
  cases op <;> simp +decide [Instruction.mnemonic, Operand.bothNames, Operand.nameAndByte,
    Operand.firstName, Operand.secondName, Operand.addrText, oneLine_append, oneLine_numeral,
    oneLine_repr]

/-! ## Printing -/

/-- Lines as a text, each with a newline after it. -/
def textOf : List String → String
  | [] => ""
  | line :: lines => line ++ "\n" ++ textOf lines

theorem textOf_append (lines lines' : List String) :
    textOf (lines ++ lines') = textOf lines ++ textOf lines' := by
  induction lines with
  | nil => exact String.empty_append.symm
  | cons line lines ih => rw [List.cons_append, textOf, textOf, ih, ← String.append_assoc]

theorem textOf_ne_empty {lines : List String} (h : lines ≠ []) : textOf lines ≠ "" := by
  cases lines with
  | nil => exact absurd rfl h
  | cons line lines => simp [textOf]

/-- Lines set apart by newlines are a text that lacks the last newline. -/
theorem ofList_intercalate_append (row : List Char) (rows : List (List Char)) :
    String.ofList (['\n'].intercalate (row :: rows)) ++ "\n" =
      textOf ((row :: rows).map .ofList) := by
  induction rows generalizing row with
  | nil => simp [textOf]
  | cons next rows ih =>
    rw [List.intercalate_cons_cons, String.ofList_append, String.ofList_append,
      String.append_assoc, ih, List.map_cons, textOf]
    rfl

/-- Printing adds lines to what has been printed, and nothing ends it. -/
def Prints (p : Printing Unit) (lines : List String) : Prop :=
  ∀ text, p.run.run text = (.ok (), text ++ textOf lines)

namespace Prints

theorem printLine (line : String) : Prints (Report.printLine line) [line] := by
  intro text
  have hline : textOf [line] = line ++ "\n" := String.append_empty
  rw [hline, ← String.append_assoc]
  rfl

theorem bind {p q : Printing Unit} {lines lines' : List String} (hp : Prints p lines)
    (hq : Prints q lines') : Prints (do p; q) (lines ++ lines') := by
  intro text
  rw [ExceptT.run_bind, StateT.run_bind, hp, textOf_append, ← String.append_assoc, ← hq]
  rfl

theorem forM {β : Type} (f : β → String) (rows : List β) :
    Prints (rows.forM fun row => Report.printLine (f row)) (rows.map f) := by
  induction rows with
  | nil =>
    intro text
    exact congrArg (Prod.mk _) String.append_empty.symm
  | cons row rows ih => exact (printLine (f row)).bind ih

end Prints

/-! ## Reports -/

namespace Report

/-- The rows of a listing rise by two from four instructions before the program counter, or from
zero, and start over after the largest word. -/
theorem rowAddress_eq (pc : UInt16) (k : Nat) :
    firstRow pc + 2 * UInt16.ofNat k = UInt16.ofNat (max pc.toNat 8 - 8 + 2 * k) := by
  have hpc := pc.toNat_lt
  have hfirst : (firstRow pc).toNat = max pc.toNat 8 - 8 := by
    rw [firstRow, rowsBefore, UInt16.toNat_ofNat']
    omega
  have htwo : (2 * UInt16.ofNat k).toNat = 2 * k % 65536 := by
    rw [UInt16.toNat_mul, UInt16.toNat_ofNat']
    show 2 * (k % 65536) % 65536 = _
    omega
  apply UInt16.toNat_inj.1
  rw [UInt16.toNat_add, hfirst, htwo, UInt16.toNat_ofNat']
  omega

/-- The lines that are shown of a state. -/
def lines (s : State) : List String :=
  s.screen.rowTexts.map .ofList ++ ((s.listing (firstRow s.pc) rowCount).map (rowLine s.pc) ++
    [registerLine s.i s.sp s.delay s.sound])

theorem oneLine_rowText (s : Screen) (y : Nat) : OneLine (.ofList (s.rowText y)) := by
  rw [OneLine, String.toList_ofList]
  intro h
  obtain ⟨x, -, hx⟩ := List.mem_map.1 h
  rw [Screen.sign] at hx
  split at hx
  · exact absurd hx (by decide)
  · exact absurd hx (by decide)

theorem oneLine_rowLine (pc : UInt16) (s : State) (address : UInt16) :
    OneLine (rowLine pc (s.listingRow address)) := by
  have hmark : OneLine (if (s.listingRow address).address = pc then ">" else " ") := by
    split
    · decide
    · decide
  have hmnemonic : OneLine (s.listingRow address).mnemonic := oneLine_mnemonic _
  simp +decide [rowLine, oneLine_append, hmark, oneLine_numeral, hmnemonic]

theorem oneLine_registerLine (i : UInt16) (sp delay sound : UInt8) :
    OneLine (registerLine i sp delay sound) := by
  simp +decide [registerLine, oneLine_append, oneLine_numeral, oneLine_repr]

theorem length_rowTexts (s : Screen) : (s.rowTexts.map String.ofList).length = screenHeight := by
  simp [Screen.rowTexts]

variable (s : State)

theorem length_lines : (lines s).length = 42 := by
  simp [lines, Screen.rowTexts, State.listing, rowCount]

theorem lines_ne_nil : lines s ≠ [] := by
  intro h
  have hlength := length_lines s
  rw [h] at hlength
  exact absurd hlength (by decide)

theorem oneLine_of_mem_lines {line : String} (h : line ∈ lines s) : OneLine line := by
  rw [lines, List.mem_append, List.mem_append, List.mem_singleton] at h
  rcases h with h | h | rfl
  · obtain ⟨row, hrow, rfl⟩ := List.mem_map.1 h
    obtain ⟨y, -, rfl⟩ := List.mem_map.1 hrow
    exact oneLine_rowText _ y
  · obtain ⟨row, hrow, rfl⟩ := List.mem_map.1 h
    obtain ⟨k, -, rfl⟩ := List.mem_map.1 hrow
    exact oneLine_rowLine _ s _
  · exact oneLine_registerLine _ _ _ _

/-- The rows of the screen come first. -/
theorem getElem?_lines_screen {y : Nat} (hy : y < screenHeight) :
    (lines s)[y]? = some (.ofList (s.screen.rowText y)) := by
  have hrows : y < (s.screen.rowTexts.map String.ofList).length := by
    rwa [length_rowTexts]
  rw [lines, List.getElem?_append_left hrows]
  simp [Screen.rowTexts, hy]

/-- After them come the instructions around the program counter. -/
theorem getElem?_lines_listing {k : Nat} (hk : k < rowCount) :
    (lines s)[screenHeight + k]? =
      some (rowLine s.pc (s.listingRow (UInt16.ofNat (max s.pc.toNat 8 - 8 + 2 * k)))) := by
  have hrows := length_rowTexts s.screen
  have hk' : k < ((s.listing (firstRow s.pc) rowCount).map (rowLine s.pc)).length := by
    simpa [State.listing] using hk
  rw [lines, List.getElem?_append_right (by omega), hrows, Nat.add_sub_cancel_left,
    List.getElem?_append_left hk', ← rowAddress_eq]
  simp [State.listing, hk]

theorem getElem?_lines_registers :
    (lines s)[screenHeight + rowCount]? = some (registerLine s.i s.sp s.delay s.sound) := by
  have hrows := length_rowTexts s.screen
  rw [lines, List.getElem?_append_right (by omega), hrows, Nat.add_sub_cancel_left]
  simp [State.listing]

/-- The screen is printed as one text, which is the rows. -/
theorem prints_picture (s : Screen) : Prints (printLine s.picture) (s.rowTexts.map .ofList) := by
  have hne : s.rowTexts ≠ [] := by simp [Screen.rowTexts]
  obtain ⟨row, rows, hrows⟩ := List.exists_cons_of_ne_nil hne
  intro text
  rw [hrows, ← ofList_intercalate_append, ← hrows, ← String.append_assoc]
  rfl

/-- What a monitor has read goes on to be printed. -/
theorem liftM_ok_bind {β γ : Type} (b : β) (f : β → Printing γ) :
    (liftM (Except.ok b : Except Monitor.Fault β) >>= f) = f b := rfl

/-- A monitor that reaches a machine prints the instructions around its program counter and its
remaining registers. -/
theorem prints_printListing {d : Monitor} {pool : Pool}
    (hread : ∀ {β : Type} (f : State → β), d.read pool f = .ok (f s)) :
    Prints (printListing d pool) ((s.listing (firstRow s.pc) rowCount).map (rowLine s.pc) ++
      [registerLine s.i s.sp s.delay s.sound]) := by
  simp only [printListing, hread, liftM_ok_bind]
  exact (Prints.forM _ _).bind (.printLine _)

/-- It prints the lines of the state altogether. -/
theorem prints_print {d : Monitor} {pool : Pool}
    (hread : ∀ {β : Type} (f : State → β), d.read pool f = .ok (f s)) :
    Prints (print d pool) (lines s) := by
  have hscreen : Prints (printScreen d pool) (s.screen.rowTexts.map .ofList) := by
    simp only [printScreen, hread, liftM_ok_bind]
    exact prints_picture s.screen
  exact hscreen.bind (prints_printListing s hread)

end Report

end Chip8
