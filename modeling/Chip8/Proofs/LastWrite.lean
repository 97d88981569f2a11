import Chip8.Monitor
import Mathlib.Logic.Function.Basic

/-!
# The last write to a place

What a monitor can set in a state are its places: cells, slots, registers and timers, each with a
content of its own (`State.contents`). To edit a state is to put values into places one after the
other (`State.contents_edit`). Bytes from an address on go to one cell each. If there are more of
them than cells, the later ones replace the earlier ones.

So after any number of edits a place holds the value that was put there last, or what it held before
if none was (`last_write_wins`).
-/

set_option autoImplicit false

namespace Chip8

/-! ## Places and what they hold -/

/-- A place in a state that can be set on its own. -/
inductive Location where
  | memory (cell : Fin memorySize)
  | stackSlot (slot : Nibble)
  | screenCell (cell : Fin screenSize)
  | register (number : Nibble)
  | stackPointer
  | index
  | programCounter
  | delay
  | sound
  deriving DecidableEq

/-- What a place can hold. -/
def Location.Value : Location → Type
  | memory _ | screenCell _ | register _ | stackPointer | delay | sound => UInt8
  | stackSlot _ | index | programCounter => UInt16

/-- A value put into a place. -/
structure Write where
  location : Location
  value : location.Value

/-- What every place holds. -/
abbrev Contents := (l : Location) → l.Value

namespace Contents

/-- The contents after a write. -/
def put (c : Contents) (w : Write) : Contents := Function.update c w.location w.value

variable (c : Contents) {l : Location} {w : Write}

theorem put_self : c.put w w.location = w.value := Function.update_self _ _ _

theorem put_of_ne (h : w.location ≠ l) : c.put w l = c l := Function.update_of_ne h.symm _ _

/-- A place that no write is to holds what it held. -/
theorem foldl_put_of_unwritten {ws : List Write} (h : ∀ w ∈ ws, w.location ≠ l) :
    ws.foldl put c l = c l := by
  induction ws generalizing c with
  | nil => rfl
  | cons w ws ih =>
    obtain ⟨hw, hws⟩ := List.forall_mem_cons.1 h
    rw [List.foldl_cons, ih _ hws, put_of_ne c hw]

/-- The last write to a place settles what it holds. -/
theorem foldl_put_of_last {before after : List Write}
    (h : ∀ w' ∈ after, w'.location ≠ w.location) :
    (before ++ w :: after).foldl put c w.location = w.value := by
  rw [List.foldl_append, List.foldl_cons, foldl_put_of_unwritten _ h, put_self]

end Contents

/-- What the places of a state hold. -/
def State.contents (s : State) : Contents
  | .memory c => s.memory.get c
  | .stackSlot slot => s.stack.get slot
  | .screenCell c => s.screen.get c
  | .register r => s.reg r
  | .stackPointer => s.sp
  | .index => s.i
  | .programCounter => s.pc
  | .delay => s.delay
  | .sound => s.sound

/-! ## Edits as writes -/

namespace Edit

/-- The write of a byte at its distance from an address. -/
def byteAt (address : UInt16) (placed : UInt8 × Nat) : Write :=
  ⟨.memory ⟨(address.toNat + placed.2) % 4096, Nat.mod_lt _ (by decide)⟩, placed.1⟩

theorem mod_sixteen_lt (n : Nat) : n % 16 < 16 := Nat.mod_lt n (by decide)

/-- The writes that an edit consists of, in order. -/
def writes : Edit → List Write
  | memory address bytes => bytes.zipIdx.map (byteAt address)
  | stackSlot slot value => [⟨.stackSlot ⟨slot % 16, mod_sixteen_lt slot⟩, value⟩]
  | screenCell number value => [⟨.screenCell ⟨number % 2048, Nat.mod_lt _ (by decide)⟩, value⟩]
  | register number value => [⟨.register ⟨number.toNat % 16, mod_sixteen_lt _⟩, value⟩]
  | stackPointer value => [⟨.stackPointer, value⟩]
  | index value => [⟨.index, value⟩]
  | programCounter value => [⟨.programCounter, value⟩]
  | delay value => [⟨.delay, value⟩]
  | sound value => [⟨.sound, value⟩]

end Edit

namespace State

/-- Contents that differ in one place at most are those after a write to it. -/
theorem contents_eq_put {s t : State} {w : Write} (hself : t.contents w.location = w.value)
    (hframe : ∀ l, l ≠ w.location → t.contents l = s.contents l) :
    t.contents = s.contents.put w :=
  Function.eq_update_iff.2 ⟨hself, hframe⟩

theorem contents_withMemory_write (s : State) (a : UInt16) (b : UInt8) :
    State.contents { s with memory := s.memory.write a b } =
      s.contents.put ⟨.memory (Memory.cell a), b⟩ := by
  refine contents_eq_put (Cells.get_set_self _ _ _) fun l hl => ?_
  cases l with
  | memory c => exact Cells.get_set_of_ne _ _ fun heq => hl (congrArg _ heq.symm)
  | _ => rfl

/-- Bytes that are written at distances from an address are writes to the cells there. -/
theorem contents_withMemory_foldl_write (address : UInt16) (s : State)
    (placed : List (UInt8 × Nat)) :
    State.contents
        { s with
          memory := placed.foldl (fun m p => m.write (address + UInt16.ofNat p.2) p.1) s.memory } =
      (placed.map (Edit.byteAt address)).foldl Contents.put s.contents := by
  induction placed generalizing s with
  | nil => rfl
  | cons p placed ih =>
    have hcell : Memory.cell (address + UInt16.ofNat p.2) =
        ⟨(address.toNat + p.2) % 4096, Nat.mod_lt _ (by decide)⟩ :=
      Fin.ext (Memory.val_cell_add address p.2)
    have hfirst : s.contents.put (Edit.byteAt address p) =
        State.contents { s with memory := s.memory.write (address + UInt16.ofNat p.2) p.1 } := by
      rw [contents_withMemory_write, hcell, Edit.byteAt]
    -- The first write is made, and the others go on from the state after it.
    rw [List.foldl_cons, List.map_cons, List.foldl_cons, hfirst, ← ih]

/-- An edit with a single write changes its place and no other one. -/
theorem contents_edit_of_writes {s : State} {e : Edit} {w : Write} (hwrites : e.writes = [w])
    (hself : (s.edit e).contents w.location = w.value)
    (hframe : ∀ l, l ≠ w.location → (s.edit e).contents l = s.contents l) :
    (s.edit e).contents = e.writes.foldl Contents.put s.contents := by
  rw [hwrites]
  exact contents_eq_put hself hframe

/-- An edit makes its writes, in order, and changes nothing else. -/
theorem contents_edit (s : State) (e : Edit) :
    (s.edit e).contents = e.writes.foldl Contents.put s.contents := by
  cases e with
  | memory address bytes =>
    rw [edit, Memory.writeBytes_eq_foldl]
    exact contents_withMemory_foldl_write address s bytes.zipIdx
  -- A bank keeps its other cells, and the places outside it are in other fields.
  | stackSlot slot value =>
    refine contents_edit_of_writes rfl (Cells.get_set_self _ _ _) fun l hl => ?_
    cases l with
    | stackSlot q => exact Cells.get_set_of_ne _ _ fun heq => hl (congrArg _ heq.symm)
    | _ => rfl
  | screenCell number value =>
    refine contents_edit_of_writes rfl (Cells.get_set_self _ _ _) fun l hl => ?_
    cases l with
    | screenCell c => exact Cells.get_set_of_ne _ _ fun heq => hl (congrArg _ heq.symm)
    | _ => rfl
  | register number value =>
    refine contents_edit_of_writes rfl (Cells.get_set_self _ _ _) fun l hl => ?_
    cases l with
    | register r => exact Cells.get_set_of_ne _ _ fun heq => hl (congrArg _ heq.symm)
    | _ => rfl
  | stackPointer value | index value | programCounter value | delay value | sound value =>
    refine contents_edit_of_writes rfl rfl fun l hl => ?_
    cases l <;> first | rfl | exact absurd rfl hl

/-- Edits one after the other make all their writes. -/
theorem contents_foldl_edit (s : State) (es : List Edit) :
    (es.foldl edit s).contents = (es.flatMap Edit.writes).foldl Contents.put s.contents := by
  induction es generalizing s with
  | nil => rfl
  | cons e es ih =>
    rw [List.foldl_cons, ih, contents_edit, List.flatMap_cons, List.foldl_append]

end State

/-! ## Edits through a monitor -/

namespace Monitor

/-- What a monitor reads of the machine that it reaches: the content of every place. A number that
names a register may be any byte. -/
structure Shows (d : Monitor) (pool : Pool) (c : Contents) : Prop where
  memory : d.read pool (fun s => s.memory.toList) = .ok (List.ofFn fun cell => c (.memory cell))
  stack : d.read pool (fun s => s.stack.toList) = .ok (List.ofFn fun slot => c (.stackSlot slot))
  screen : d.read pool (fun s => s.screen.toList) =
    .ok (List.ofFn fun cell => c (.screenCell cell))
  register : ∀ number : UInt8, d.read pool (fun s => s.reg (.ofByte number)) =
    .ok (c (.register ⟨number.toNat % 16, Edit.mod_sixteen_lt _⟩))
  stackPointer : d.read pool (fun s => s.sp) = .ok (c .stackPointer)
  index : d.read pool (fun s => s.i) = .ok (c .index)
  programCounter : d.read pool (fun s => s.pc) = .ok (c .programCounter)
  delay : d.read pool (fun s => s.delay) = .ok (c .delay)
  sound : d.read pool (fun s => s.sound) = .ok (c .sound)

variable {d : Monitor} {pool : Pool} {id : MachineId} {m : Machine}

theorem shows_of_access (h : d.access pool = .ok (id, m)) : d.Shows pool m.state.contents where
  memory := (read_of_access h _).trans (congrArg _ m.state.memory.toList_eq_ofFn)
  stack := (read_of_access h _).trans (congrArg _ m.state.stack.toList_eq_ofFn)
  screen := (read_of_access h _).trans (congrArg _ m.state.screen.toList_eq_ofFn)
  register _ := read_of_access h _
  stackPointer := read_of_access h _
  index := read_of_access h _
  programCounter := read_of_access h _
  delay := read_of_access h _
  sound := read_of_access h _

/-- Writing reaches the machine each time, and edits its state alone. Other machines are as they
were. -/
theorem foldlM_write_of_access (es : List Edit) (h : d.access pool = .ok (id, m)) :
    ∃ pool', es.foldlM d.write pool = .ok pool' ∧
      d.access pool' = .ok (id, { m with state := es.foldl State.edit m.state }) ∧
      ∀ other, other ≠ id → pool'.get? other = pool.get? other := by
  induction es generalizing pool m with
  | nil => exact ⟨pool, rfl, h, fun _ _ => rfl⟩
  | cons e es ih =>
    obtain ⟨pool', hrest, haccess, hothers⟩ := ih (access_setMachine h (m.edit e))
    refine ⟨pool', ?_, haccess, fun other hother => ?_⟩
    · rw [List.foldlM_cons, write_of_access h e]
      exact hrest
    · rw [hothers other hother, Pool.get?_setMachine_of_ne pool _ hother]

end Monitor

/-- Of several writes to a place the last one stays. After any edits, one after the other, of a
machine that a monitor reaches, it is reached still, and a place holds the value of the last of all
their writes to it, or what it held before if there is none. The writes of an edit are `Edit.writes`:
of any number of bytes from an address `a` on, the byte at a distance `k` goes to the cell
`(a + k) % 4096`, and numbers of slots, screen cells and registers start over at 16, 2048 and 16.
What is read afterwards is what the places hold. The latest instruction with its address, the clock
and the program image stay as they were, and so do all other machines. -/
theorem last_write_wins {d : Monitor} {pool : Pool} {id : MachineId} {m : Machine}
    (haccess : d.access pool = .ok (id, m)) (es : List Edit) :
    ∃ pool' m', es.foldlM d.write pool = .ok pool' ∧ d.access pool' = .ok (id, m') ∧
      (∀ before w after, es.flatMap Edit.writes = before ++ w :: after →
        (∀ w' ∈ after, w'.location ≠ w.location) → m'.state.contents w.location = w.value) ∧
      (∀ l, (∀ w ∈ es.flatMap Edit.writes, w.location ≠ l) →
        m'.state.contents l = m.state.contents l) ∧
      d.Shows pool' m'.state.contents ∧
      (m'.last = m.last ∧ m'.lastPc = m.lastPc ∧ m'.clock = m.clock ∧ m'.rom = m.rom) ∧
      ∀ other, other ≠ id → pool'.get? other = pool.get? other := by
  -- All that is left to read off is one fold of writes over what the places held.
  obtain ⟨pool', hwrites, haccess', hothers⟩ := Monitor.foldlM_write_of_access es haccess
  have hcontents := m.state.contents_foldl_edit es
  refine ⟨pool', { m with state := es.foldl State.edit m.state }, hwrites, haccess', ?_, ?_,
    Monitor.shows_of_access haccess', ⟨rfl, rfl, rfl, rfl⟩, hothers⟩
  · intro before w after hsplit hlast
    rw [hcontents, hsplit, Contents.foldl_put_of_last _ hlast]
  · intro l hunwritten
    rw [hcontents, Contents.foldl_put_of_unwritten _ hunwritten]

/-- As many bytes as there are addresses are written from the last cell on, and one more. Then the
flag register is set by two numbers. -/
def Edit.aroundMemory : List Edit :=
  [.memory 0xFFF (List.replicate 65536 5 ++ [9]), .register 0x1F 3, .register 0xF 4]

theorem Edit.writes_aroundMemory :
    aroundMemory.flatMap writes =
      (List.replicate 65536 5).zipIdx.map (byteAt 0xFFF) ++
        [byteAt 0xFFF (9, 65536), ⟨.register 15, (3 : UInt8)⟩, ⟨.register 15, (4 : UInt8)⟩] := by
  rw [aroundMemory, List.flatMap_cons, writes, List.zipIdx_append, List.map_append,
    List.length_replicate, List.append_assoc]
  rfl

/-- The last byte is where the first one was, the flag register holds what was written last, and the
delay timer is as it was. -/
theorem aroundMemory_written :
    let m := Machine.new
    let pool := (Pool.empty.add m).2
    let d : Monitor := ⟨some 0⟩
    d.access pool = .ok (0, m) ∧
      ∃ pool' m', Edit.aroundMemory.foldlM d.write pool = .ok pool' ∧
        d.access pool' = .ok (0, m') ∧ m'.state.memory.get 0xFFF = 9 ∧ m'.state.reg 15 = 4 ∧
        m'.state.delay = m.state.delay := by
  intro m pool d
  have haccess : d.access pool = .ok (0, m) := rfl
  obtain ⟨pool', m', hwrites, haccess', hlast, hunwritten, -⟩ :=
    last_write_wins haccess Edit.aroundMemory
  rw [Edit.writes_aroundMemory] at hlast hunwritten
  refine ⟨haccess, pool', m', hwrites, haccess', ?_, ?_, ?_⟩
  · exact hlast _ (Edit.byteAt 0xFFF (9, 65536)) _ rfl (by decide)
  · exact hlast _ ⟨.register 15, (4 : UInt8)⟩ [] (List.append_assoc _ [_, _] [_]).symm
      (List.forall_mem_nil _)
  · refine hunwritten .delay (List.forall_mem_append.2 ⟨?_, by decide⟩)
    exact List.forall_mem_map.2 fun _ _ => Location.noConfusion

end Chip8
