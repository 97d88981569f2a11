import Chip8.Pool
import Chip8.Listing

/-!
# Monitors

A monitor looks into at most one shared machine and writes to it. It does not keep the machine
there: once the machine is gone, another one may be attached in its place. Every access needs the
machine's lock.
-/

set_option autoImplicit false

namespace Chip8

/-- A value written into a state. Numbers beyond the last place start over. -/
inductive Edit where
  /-- Bytes from an address on. -/
  | memory (address : UInt16) (bytes : List UInt8)
  | stackSlot (slot : Nat) (value : UInt16)
  | screenCell (index : Nat) (value : UInt8)
  | register (number : UInt8) (value : UInt8)
  | stackPointer (value : UInt8)
  | index (value : UInt16)
  | programCounter (value : UInt16)
  | delay (value : UInt8)
  | sound (value : UInt8)

/-- A state after a value is written into it. -/
def State.edit (s : State) : Edit → State
  | .memory address bytes => { s with memory := s.memory.writeBytes address bytes }
  | .stackSlot slot value =>
      { s with stack := s.stack.set (Nibble.ofNat slot) value }
  | .screenCell index value =>
      { s with screen := s.screen.set (Screen.cell index 0) value }
  | .register number value => s.setReg (.ofByte number) value
  | .stackPointer value => { s with sp := value }
  | .index value => { s with i := value }
  | .programCounter value => { s with pc := value }
  | .delay value => { s with delay := value }
  | .sound value => { s with sound := value }

/-- A machine after a value is written into its state. -/
def Machine.edit (m : Machine) (e : Edit) : Machine := { m with state := m.state.edit e }

/-- A view of at most one shared machine. -/
structure Monitor where
  /-- The machine attached, which may be gone by now. -/
  target : Option MachineId
  deriving DecidableEq

namespace Monitor

/-- Why a machine cannot be reached. -/
inductive Fault where
  /-- No machine is attached. -/
  | detached
  /-- The attached machine is gone: nobody holds it any more. -/
  | gone
  /-- The attached machine's lock is poisoned. -/
  | poisoned
  deriving DecidableEq, Repr

/-- The text of a fault. -/
def Fault.message : Fault → String
  | detached => "no machine is attached to the debugger"
  | gone => "the attached machine no longer exists"
  | poisoned => "the attached machine's lock is poisoned"

/-- A monitor without a machine. -/
def new : Monitor := ⟨none⟩

/-- Whether the attached machine is there. -/
def hasMachine (d : Monitor) (pool : Pool) : Bool := d.target.any pool.isAlive

/-- Attaches a machine unless another one is attached and still there. -/
def attach (d : Monitor) (pool : Pool) (id : MachineId) : Bool × Monitor :=
  if d.hasMachine pool then (false, d) else (true, ⟨some id⟩)

/-- Detaches the machine, which may be gone. -/
def detach (d : Monitor) : Bool × Monitor := (d.target.isSome, ⟨none⟩)

/-- The attached machine and its number. -/
def access (d : Monitor) (pool : Pool) : Except Fault (MachineId × Machine) :=
  match d.target with
  | none => .error .detached
  | some id =>
      match pool.get? id with
      | none => .error .gone
      | some entry => if entry.poisoned then .error .poisoned else .ok (id, entry.machine)

/-- Any use of the attached machine, which may read it and change it: what it gives, and the pool
afterwards. -/
def withMachine {β : Type} (d : Monitor) (pool : Pool) (f : Machine → β × Machine) :
    Except Fault β × Pool :=
  match d.access pool with
  | .error e => (.error e, pool)
  | .ok (id, machine) => (.ok (f machine).1, pool.setMachine id (f machine).2)

/-- A value read from the attached machine's state. -/
def read {β : Type} (d : Monitor) (pool : Pool) (f : State → β) : Except Fault β := do
  let (_, machine) ← d.access pool
  return f machine.state

/-- Writes a value into the attached machine's state. -/
def write (d : Monitor) (pool : Pool) (e : Edit) : Except Fault Pool := do
  let (id, machine) ← d.access pool
  return pool.setMachine id (machine.edit e)

/-- The machine with a number is reached if it is attached and there and its lock can be had. -/
theorem access_eq_ok_iff {d : Monitor} {pool : Pool} {id : MachineId} {machine : Machine} :
    d.access pool = .ok (id, machine) ↔
      d.target = some id ∧
        ∃ entry, pool.get? id = some entry ∧ entry.poisoned = false ∧ entry.machine = machine := by
  constructor
  · intro h
    unfold access at h
    split at h
    · simp at h
    · next target htarget =>
      split at h
      · simp at h
      · next entry hget =>
        split at h
        · simp at h
        · next hlock =>
          simp only [Except.ok.injEq, Prod.mk.injEq] at h
          obtain ⟨rfl, rfl⟩ := h
          exact ⟨htarget, entry, hget, Bool.eq_false_iff.2 hlock, rfl⟩
  · rintro ⟨htarget, entry, hget, hlock, rfl⟩
    simp [access, htarget, hget, hlock]

section

variable {d : Monitor} {pool : Pool} {id : MachineId} {machine : Machine}
  (h : d.access pool = .ok (id, machine))

include h

theorem read_of_access {β : Type} (f : State → β) : d.read pool f = .ok (f machine.state) := by
  rw [read, h]
  rfl

theorem write_of_access (e : Edit) :
    d.write pool e = .ok (pool.setMachine id (machine.edit e)) := by
  rw [write, h]
  rfl

/-- A machine that takes the place of the one reached is reached instead. -/
theorem access_setMachine (machine' : Machine) :
    d.access (pool.setMachine id machine') = .ok (id, machine') := by
  obtain ⟨htarget, entry, hget, hlock, -⟩ := access_eq_ok_iff.1 h
  refine access_eq_ok_iff.2 ⟨htarget, { entry with machine := machine' }, ?_, hlock, rfl⟩
  rw [Pool.get?_setMachine, hget]
  rfl

end

/-- A use that leaves the attached machine as it is leaves all machines as they are. -/
theorem withMachine_of_keeps {β : Type} {d : Monitor} {pool : Pool} {id : MachineId}
    {machine : Machine} {f : Machine → β × Machine} (h : d.access pool = .ok (id, machine))
    (hkeeps : (f machine).2 = machine) : d.withMachine pool f = (.ok (f machine).1, pool) := by
  obtain ⟨-, entry, hget, -, rfl⟩ := access_eq_ok_iff.1 h
  simp only [withMachine, h, hkeeps, Pool.setMachine_self hget]

theorem read_eq_withMachine {β : Type} (d : Monitor) (pool : Pool) (f : State → β) :
    d.read pool f = (d.withMachine pool fun machine => (f machine.state, machine)).1 := by
  rw [read, withMachine]
  cases d.access pool with
  | error _ => rfl
  | ok _ => rfl

theorem write_eq_withMachine (d : Monitor) (pool : Pool) (e : Edit) :
    d.write pool e =
      let used := d.withMachine pool fun machine => ((), machine.edit e)
      used.1.map fun _ => used.2 := by
  rw [write, withMachine]
  cases d.access pool with
  | error _ => rfl
  | ok _ => rfl

end Monitor

end Chip8
