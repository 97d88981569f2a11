import Chip8.Proofs.Loading
import Chip8.Proofs.Run

/-!
# A loaded machine is a new one

A machine that has loaded a program remembers nothing of its time before (`load_erases_history`).
Apart from what is known of the image, loading makes the same machine of every machine, wherever the
program comes from (`Machine.Loads.exists_eq`). That covers what a machine keeps outside its state
too: the latest instruction with its address, and what is known of the clock. What is known of the
image takes no part in a step (`Machine.step_withRom`), so all the steps from then on are those of a
new machine with the same program.
-/

set_option autoImplicit false

namespace Chip8

namespace Machine

/-- A machine becomes another one by loading a program, from memory or from a file that holds it. -/
inductive Loads (m : Machine) (program : List UInt8) : Machine → Prop where
  | fromMemory {loaded : Machine} :
      m.loadProgram program = (.ok (), loaded) → Loads m program loaded
  | fromFile {path : Path} {size : Nat} {loaded : Machine} :
      m.loadFile path (.regular size (some program)) = (.ok (), loaded) → Loads m program loaded

/-- A file that could be read loads exactly if both of its sizes fit. -/
theorem loadFile_regular_eq_ok_iff (m : Machine) (path : Path) (size : Nat) (bytes : List UInt8) :
    (m.loadFile path (.regular size (some bytes))).1 = .ok () ↔
      (1 ≤ size ∧ size ≤ 3584) ∧ 1 ≤ bytes.length ∧ bytes.length ≤ 3584 := by
  rw [m.loadFile_eq_ok_iff]
  constructor
  · rintro ⟨size', bytes', hfile, hpos, hle, hread⟩
    obtain ⟨rfl, hbytes⟩ := Rom.FileView.regular.inj hfile
    obtain rfl := Option.some.inj hbytes
    exact ⟨⟨hpos, hle⟩, hread⟩
  · rintro ⟨⟨hpos, hle⟩, hread⟩
    exact ⟨size, bytes, rfl, hpos, hle, hread⟩

/-- Loading leaves nothing of the machine before. -/
theorem Loads.exists_eq {m loaded : Machine} {program : List UInt8} (h : m.Loads program loaded) :
    ∃ rom, loaded = ofProgram program rom := by
  cases h with
  | fromMemory h =>
    obtain ⟨hpos, hle⟩ := (m.loadProgram_eq_ok_iff program).1 (congrArg Prod.fst h)
    rw [m.loadProgram_of_le hpos hle] at h
    exact ⟨_, (congrArg Prod.snd h).symm⟩
  | @fromFile path size _ h =>
    obtain ⟨⟨hpos, hle⟩, hread, hreadLe⟩ :=
      (m.loadFile_regular_eq_ok_iff path size program).1 (congrArg Prod.fst h)
    rw [m.loadFile_of_le path hpos hle hread hreadLe] at h
    exact ⟨_, (congrArg Prod.snd h).symm⟩

section

variable (m : Machine) (rom : Rom.Info)

theorem step_withRom (i : StepInputs) :
    { m with rom := rom }.step i = { m.step i with rom := rom } := by
  unfold step readClock
  cases i.frozen with
  | true => rfl
  | false => rfl

theorem run_withRom (is : List StepInputs) :
    { m with rom := rom }.run is = { m.run is with rom := rom } := by
  induction is generalizing m with
  | nil => rfl
  | cons i is ih => rw [run_cons, run_cons, step_withRom, ih]

end

/-- A machine that starts on a program is not looping: no instruction was executed yet. -/
theorem isLooping_ofProgram (program : List UInt8) (rom : Rom.Info) :
    (ofProgram program rom).isLooping = false := rfl

end Machine

/-- A successful load erases all history. Whatever a machine went through, a program of 1 to 3584
bytes loads from memory, and from a file if the size that the file system reports fits. The memory
then holds the font, the program at its place and zeros elsewhere, everything else in the state is
as in a new machine, and no loop is detected. Whatever the keys, the random bytes, the readings of
the clock and the frozen timers, any number of steps then leads to the machine to which they lead on
a new machine with the same program, apart from what is known of the image. And that is all in which
loading from a file differs from loading from memory. -/
theorem load_erases_history (m : Machine) {program : List UInt8} (hpos : 1 ≤ program.length)
    (hle : program.length ≤ 3584) :
    (m.loadProgram program).1 = .ok () ∧
      (∀ path size, (m.loadFile path (.regular size (some program))).1 = .ok () ↔
        1 ≤ size ∧ size ≤ 3584) ∧
      (∀ loaded, m.Loads program loaded →
        loaded.state.memory.toList =
          Font.bytes ++ List.replicate 432 0 ++ program ++
            List.replicate (3584 - program.length) 0 ∧
        loaded.state = { Machine.new.state with memory := loaded.state.memory } ∧
        loaded.isLooping = false ∧
        ∀ fresh, Machine.new.Loads program fresh →
          ∀ is, loaded.run is = { fresh.run is with rom := loaded.rom }) ∧
      ∀ path size, (m.loadFile path (.regular size (some program))).1 = .ok () →
        (m.loadFile path (.regular size (some program))).2 =
          { (m.loadProgram program).2 with rom := .ofPath path program.length } := by
  refine ⟨(m.loadProgram_eq_ok_iff program).2 ⟨hpos, hle⟩, fun path size => ?_, ?_, ?_⟩
  · rw [m.loadFile_regular_eq_ok_iff]
    exact and_iff_left ⟨hpos, hle⟩
  · intro loaded hloaded
    obtain ⟨rom, rfl⟩ := hloaded.exists_eq
    refine ⟨Memory.toList_ofProgram hle, rfl, Machine.isLooping_ofProgram program rom, ?_⟩
    intro fresh hfresh is
    obtain ⟨rom', rfl⟩ := hfresh.exists_eq
    exact (Machine.ofProgram program rom').run_withRom rom is
  · intro path size hok
    obtain ⟨⟨hsize, hsizeLe⟩, -⟩ := (m.loadFile_regular_eq_ok_iff path size program).1 hok
    rw [m.loadFile_of_le path hsize hsizeLe hpos hle, m.loadProgram_of_le hpos hle]
    rfl

/-- A program that draws the glyph of zero and then rests. -/
def zeroGlyph : List UInt8 := [0xD0, 0x05, 0x12, 0x02]

/-- The machine that was at work before starts over. -/
theorem zeroGlyph_erases_atWork :
    atWork.state.reg (.ofNat 0xA) = 0x3C ∧ atWork.clock.lastReading = some 5 ∧
      ∃ loaded, atWork.Loads zeroGlyph loaded ∧ loaded.state.reg (.ofNat 0xA) = 0 ∧
        loaded.isLooping = false ∧
        ∀ fresh, Machine.new.Loads zeroGlyph fresh →
          ∀ is, loaded.run is = { fresh.run is with rom := loaded.rom } := by
  obtain ⟨hok, -, hloaded, -⟩ :=
    load_erases_history atWork (show 1 ≤ zeroGlyph.length by decide) (by decide)
  have hloads : atWork.Loads zeroGlyph (atWork.loadProgram zeroGlyph).2 :=
    .fromMemory (Prod.ext hok rfl)
  obtain ⟨-, hstate, hlooping, hrun⟩ := hloaded _ hloads
  refine ⟨by decide +kernel, by decide +kernel, _, hloads, ?_, hlooping, hrun⟩
  rw [hstate]
  decide +kernel

end Chip8
