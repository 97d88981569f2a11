/-!
# Banks of cells

The cells of a bank of `n` are named by the numbers below `n`. Registers, memory, stack, screen
and keys are such banks. A bank is known by what its cells hold (`Cells.ext`), and setting a cell
changes that cell alone (`Cells.get_set`).
-/

set_option autoImplicit false

namespace Chip8

/-- A bank of `n` cells. -/
structure Cells (α : Type) (n : Nat) where
  toVector : Vector α n
  deriving DecidableEq

namespace Cells

variable {α : Type} {n : Nat}

/-- What a cell holds. -/
def get (c : Cells α n) (i : Fin n) : α := getElem c.toVector i.val i.isLt

/-- Puts a value into a cell. -/
def set (c : Cells α n) (i : Fin n) (a : α) : Cells α n := ⟨c.toVector.set i.val a i.isLt⟩

/-- A bank whose cells hold the values of a function. -/
def ofFn (f : Fin n → α) : Cells α n := ⟨Vector.ofFn f⟩

/-- A bank whose cells all hold one value. -/
def replicate (n : Nat) (a : α) : Cells α n := ⟨Vector.replicate n a⟩

/-- What the cells hold, in order. -/
def toList (c : Cells α n) : List α := c.toVector.toList

@[ext]
theorem ext {c d : Cells α n} (h : ∀ i, c.get i = d.get i) : c = d := by
  obtain ⟨v⟩ := c
  obtain ⟨w⟩ := d
  congr
  exact Vector.ext fun i hi => h ⟨i, hi⟩

theorem get_set (c : Cells α n) (i j : Fin n) (a : α) :
    (c.set i a).get j = if i = j then a else c.get j := by
  simp only [get, set, Vector.getElem_set, Fin.ext_iff]

@[simp]
theorem get_set_self (c : Cells α n) (i : Fin n) (a : α) : (c.set i a).get i = a := by
  rw [get_set, if_pos rfl]

theorem get_set_of_ne (c : Cells α n) {i j : Fin n} (a : α) (h : i ≠ j) :
    (c.set i a).get j = c.get j := by
  rw [get_set, if_neg h]

@[simp]
theorem set_set (c : Cells α n) (i : Fin n) (a b : α) : (c.set i a).set i b = c.set i b := by
  ext j
  simp only [get_set]
  split <;> rfl

@[simp]
theorem get_ofFn (f : Fin n → α) (i : Fin n) : (ofFn f).get i = f i := by
  simp only [get, ofFn, Vector.getElem_ofFn]

@[simp]
theorem get_replicate (a : α) (i : Fin n) : (replicate n a).get i = a := by
  simp only [get, replicate, Vector.getElem_replicate]

theorem toList_eq_ofFn (c : Cells α n) : c.toList = List.ofFn c.get := by
  apply List.ext_getElem
  · rw [toList, Vector.length_toList, List.length_ofFn]
  · intro i _ _
    rw [List.getElem_ofFn]
    rfl

end Cells

end Chip8
