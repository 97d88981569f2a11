import Chip8.Machine

/-!
# Shared machines

A pool keeps the machines that several parties share. Each has a number that is never used again.
A machine is there as long as somebody holds it: at first the one who made it, and besides any
number of others, such as a run on a thread of its own, which holds its machine from its beginning
to its end. A machine that nobody holds is gone for good. A machine's lock may be poisoned, which
only those who ask for the lock notice.
-/

set_option autoImplicit false

namespace Chip8

/-- The number of a shared machine. -/
abbrev MachineId := Nat

/-- The number of somebody who may hold machines. Two handles on one machine are two holders. -/
abbrev Holder := Nat

/-- The one who makes a machine. -/
def Holder.maker : Holder := 0

/-- A shared machine and its lock. -/
structure SharedMachine where
  machine : Machine
  /-- Whether the lock is poisoned. -/
  poisoned : Bool
  /-- Those who hold the machine now. -/
  holders : List Holder

/-- The machines that are shared, by number. -/
structure Pool where
  /-- All machines ever added, those that are gone included. -/
  entries : Array SharedMachine

namespace Pool

/-- No machines. -/
def empty : Pool := ⟨#[]⟩

/-- The machine with a number, unless it is gone. -/
def get? (p : Pool) (id : MachineId) : Option SharedMachine :=
  p.entries[id]?.filter fun entry => !entry.holders.isEmpty

/-- Whether the machine with a number is still there. -/
def isAlive (p : Pool) (id : MachineId) : Bool := (p.get? id).isSome

/-- The machine with a number, if it is there and its lock can be had. -/
def lock? (p : Pool) (id : MachineId) : Option Machine :=
  (p.get? id).bind fun entry => if entry.poisoned then none else some entry.machine

/-- Adds a machine under a number of its own. -/
def add (p : Pool) (machine : Machine) : MachineId × Pool :=
  (p.entries.size, ⟨p.entries.push ⟨machine, false, [Holder.maker]⟩⟩)

/-- Changes a machine. If it is gone, nobody sees the difference. -/
def modify (p : Pool) (id : MachineId) (f : SharedMachine → SharedMachine) : Pool :=
  ⟨p.entries.modify id f⟩

/-- Gives a machine one holder more. Nobody can get hold of one that is gone. -/
def hold (p : Pool) (id : MachineId) (holder : Holder) : Pool :=
  p.modify id fun entry =>
    if entry.holders.isEmpty then entry else { entry with holders := holder :: entry.holders }

/-- Drops a machine on one holder's part. It stays there while somebody else holds it. -/
def drop (p : Pool) (id : MachineId) (holder : Holder) : Pool :=
  p.modify id fun entry => { entry with holders := entry.holders.filter (· != holder) }

/-- Replaces a machine and leaves its lock as it is. -/
def setMachine (p : Pool) (id : MachineId) (machine : Machine) : Pool :=
  p.modify id fun entry => { entry with machine := machine }

/-- Poisons a machine's lock. -/
def poison (p : Pool) (id : MachineId) : Pool :=
  p.modify id fun entry => { entry with poisoned := true }

theorem getElem?_entries_modify (p : Pool) (id other : MachineId)
    (f : SharedMachine → SharedMachine) :
    (p.modify id f).entries[other]? =
      if id = other then p.entries[other]?.map f else p.entries[other]? :=
  Array.getElem?_modify

theorem isAlive_iff (p : Pool) (id : MachineId) :
    p.isAlive id = true ↔
      ∃ entry, p.entries[id]? = some entry ∧ ∃ holder, holder ∈ entry.holders := by
  rw [isAlive, get?, Option.isSome_filter, Option.any_eq_true]
  simp only [Bool.not_eq_true', List.isEmpty_eq_false_iff_exists_mem]

/-- Replacing a machine changes neither its lock nor who holds it. -/
theorem get?_setMachine (p : Pool) (id : MachineId) (machine : Machine) :
    (p.setMachine id machine).get? id =
      (p.get? id).map fun entry => { entry with machine := machine } := by
  rw [get?, setMachine, getElem?_entries_modify, if_pos rfl, get?]
  exact Option.filter_map

/-- It does not touch the other machines. -/
theorem get?_setMachine_of_ne (p : Pool) {id other : MachineId} (machine : Machine)
    (h : other ≠ id) : (p.setMachine id machine).get? other = p.get? other := by
  rw [get?, setMachine, getElem?_entries_modify, if_neg h.symm]
  rfl

/-- To replace a machine by itself changes nothing. -/
theorem setMachine_self {p : Pool} {id : MachineId} {entry : SharedMachine}
    (h : p.get? id = some entry) : p.setMachine id entry.machine = p := by
  have hentry : p.entries[id]? = some entry := (Option.filter_eq_some_iff.1 h).1
  have hentries :
      p.entries.modify id (fun e => { e with machine := entry.machine }) = p.entries := by
    apply Array.ext_getElem?
    intro other
    rw [Array.getElem?_modify]
    split
    · next heq =>
      rw [← heq, hentry]
      rfl
    · rfl
  rw [setMachine, modify, hentries]

end Pool

end Chip8
