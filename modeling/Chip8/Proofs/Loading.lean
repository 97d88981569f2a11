import Chip8.Machine

/-!
# Loading program images

Loading an image either starts the machine anew on it or leaves the machine as it was, down to the
last detail (`load_refused_iff_and_keeps`). A file is refused for one of four reasons, which are
looked for in a fixed order: there is no regular file, the size that the file system reports does
not fit, the file cannot be opened or read, or what was read has a size that does not fit
(`Rom.Refused`). The last one is not the second again, since a file may change in between.
-/

set_option autoImplicit false

namespace Chip8

namespace Rom

/-- Why the image in a file is refused. A reason applies only if none of those before it does. -/
inductive Refused (name : String) : FileView → LoadError → Prop where
  /-- There is no regular file. -/
  | notFound : Refused name .absent (.notFound name)
  /-- The reported size does not fit. The file is not even opened. -/
  | reportedSize {size : Nat} {contents : Option (List UInt8)} :
      size = 0 ∨ 3584 < size → Refused name (.regular size contents) (.badSize name size)
  /-- Opening or reading the file fails. -/
  | unreadable {size : Nat} :
      1 ≤ size → size ≤ 3584 → Refused name (.regular size none) (.unreadable name)
  /-- What was read is not of a size that fits, whatever size was reported. -/
  | readSize {size : Nat} {bytes : List UInt8} :
      1 ≤ size → size ≤ 3584 → bytes.length = 0 ∨ 3584 < bytes.length →
        Refused name (.regular size (some bytes)) (.badSize name bytes.length)

theorem checkSize_of_le {name : String} {size : Nat} (hpos : 1 ≤ size) (hle : size ≤ 3584) :
    checkSize name size = .ok () := checkSize_eq_ok_iff.2 ⟨hpos, hle⟩

theorem checkSize_of_not_le {name : String} {size : Nat} (h : size = 0 ∨ 3584 < size) :
    checkSize name size = .error (.badSize name size) := by
  have hfits : ¬ fits size = true := by
    rw [fits, Bool.and_eq_true, decide_eq_true_eq, decide_eq_true_eq, capacity]
    omega
  rw [checkSize, if_neg hfits]

/-- Whether a size fits is decided one way or the other. -/
theorem le_or_not_le (size : Nat) : (1 ≤ size ∧ size ≤ 3584) ∨ (size = 0 ∨ 3584 < size) := by
  omega

theorem image_of_refused {name : String} {file : FileView} {e : LoadError}
    (h : Refused name file e) : image name file = .error e := by
  cases h with
  | notFound => rfl
  | reportedSize hsize =>
    rw [image.eq_def]
    simp only [checkSize_of_not_le hsize]
    rfl
  | unreadable hpos hle =>
    rw [image.eq_def]
    simp only [checkSize_of_le hpos hle]
    rfl
  | readSize hpos hle hread =>
    rw [image.eq_def]
    simp only [checkSize_of_le hpos hle, checkSize_of_not_le hread]
    rfl

theorem image_of_le {name : String} {size : Nat} {bytes : List UInt8} (hpos : 1 ≤ size)
    (hle : size ≤ 3584) (hread : 1 ≤ bytes.length) (hreadLe : bytes.length ≤ 3584) :
    image name (.regular size (some bytes)) = .ok bytes := by
  rw [image.eq_def]
  simp only [checkSize_of_le hpos hle, checkSize_of_le hread hreadLe]
  rfl

/-- What becomes of a file: it is refused for a reason, or it was read and fits. -/
theorem refused_or_le (name : String) (file : FileView) :
    (∃ e, Refused name file e) ∨
      ∃ size bytes, file = .regular size (some bytes) ∧ 1 ≤ size ∧ size ≤ 3584 ∧
        1 ≤ bytes.length ∧ bytes.length ≤ 3584 := by
  -- The cases follow the order in which a file is looked at.
  cases file with
  | absent => exact .inl ⟨_, .notFound⟩
  | regular size contents =>
    rcases le_or_not_le size with ⟨hpos, hle⟩ | hsize
    · cases contents with
      | none => exact .inl ⟨_, .unreadable hpos hle⟩
      | some bytes =>
        rcases le_or_not_le bytes.length with ⟨hread, hreadLe⟩ | hread
        · exact .inr ⟨size, bytes, rfl, hpos, hle, hread, hreadLe⟩
        · exact .inl ⟨_, .readSize hpos hle hread⟩
    · exact .inl ⟨_, .reportedSize hsize⟩

end Rom

namespace Machine

variable (m : Machine)

theorem loadFile_of_refused {path : Path} {file : Rom.FileView} {e : Rom.LoadError}
    (h : Rom.Refused (.ofList path.baseName) file e) : m.loadFile path file = (.error e, m) := by
  rw [loadFile, Rom.image_of_refused h]

theorem loadFile_of_le (path : Path) {size : Nat} {bytes : List UInt8} (hpos : 1 ≤ size)
    (hle : size ≤ 3584) (hread : 1 ≤ bytes.length) (hreadLe : bytes.length ≤ 3584) :
    m.loadFile path (.regular size (some bytes)) =
      (.ok (), ofProgram bytes (.ofPath path bytes.length)) := by
  rw [loadFile, Rom.image_of_le hpos hle hread hreadLe]

theorem loadProgram_of_not_le {program : List UInt8}
    (h : program.length = 0 ∨ 3584 < program.length) :
    m.loadProgram program = (.error (.badSize "<memory>" program.length), m) := by
  rw [loadProgram, Rom.checkSize_of_not_le h]

theorem loadProgram_of_le {program : List UInt8} (hpos : 1 ≤ program.length)
    (hle : program.length ≤ 3584) :
    m.loadProgram program = (.ok (), ofProgram program (.unnamed program.length)) := by
  rw [loadProgram, Rom.checkSize_of_le hpos hle]

/-- Loading a file fails exactly for the reasons to refuse it. -/
theorem loadFile_eq_error_iff (path : Path) (file : Rom.FileView) (e : Rom.LoadError) :
    (m.loadFile path file).1 = .error e ↔ Rom.Refused (.ofList path.baseName) file e := by
  constructor
  · intro h
    rcases Rom.refused_or_le (.ofList path.baseName) file with
      ⟨e', he'⟩ | ⟨size, bytes, rfl, hpos, hle, hread, hreadLe⟩
    · rw [m.loadFile_of_refused he'] at h
      obtain rfl := Except.error.inj h
      exact he'
    · rw [m.loadFile_of_le path hpos hle hread hreadLe] at h
      exact absurd h (by simp)
  · intro h
    rw [m.loadFile_of_refused h]

/-- Loading a file succeeds exactly if it was read and both its sizes fit. -/
theorem loadFile_eq_ok_iff (path : Path) (file : Rom.FileView) :
    (m.loadFile path file).1 = .ok () ↔ ∃ size bytes, file = .regular size (some bytes) ∧
      1 ≤ size ∧ size ≤ 3584 ∧ 1 ≤ bytes.length ∧ bytes.length ≤ 3584 := by
  constructor
  · intro h
    refine (Rom.refused_or_le (.ofList path.baseName) file).resolve_left ?_
    rintro ⟨e, he⟩
    rw [m.loadFile_of_refused he] at h
    exact absurd h (by simp)
  · rintro ⟨size, bytes, rfl, hpos, hle, hread, hreadLe⟩
    rw [m.loadFile_of_le path hpos hle hread hreadLe]

theorem loadProgram_eq_error_iff (program : List UInt8) (e : Rom.LoadError) :
    (m.loadProgram program).1 = .error e ↔
      (program.length = 0 ∨ 3584 < program.length) ∧ e = .badSize "<memory>" program.length := by
  rcases Rom.le_or_not_le program.length with ⟨hpos, hle⟩ | hsize
  · rw [m.loadProgram_of_le hpos hle]
    simp only [reduceCtorEq, false_iff]
    omega
  · rw [m.loadProgram_of_not_le hsize]
    simp only [hsize, true_and, Except.error.injEq]
    exact eq_comm

theorem loadProgram_eq_ok_iff (program : List UInt8) :
    (m.loadProgram program).1 = .ok () ↔ 1 ≤ program.length ∧ program.length ≤ 3584 := by
  rcases Rom.le_or_not_le program.length with hle | hsize
  · simp only [m.loadProgram_of_le hle.1 hle.2, hle, and_self]
  · rw [m.loadProgram_of_not_le hsize]
    simp only [reduceCtorEq, false_iff]
    omega

end Machine

/-- Loading is all or nothing, and its failures are told apart. On any machine, and whatever the
file system shows under any path, loading a file fails exactly for the first reason to refuse it,
and then the machine is what it was. It succeeds exactly on a regular file whose reported and whose read
size are from 1 to 3584, and then the machine starts on what was read. Loading a program from memory
fails exactly if its size is 0 or above 3584, and then the machine is what it was. -/
theorem load_refused_iff_and_keeps (m : Machine) (path : Path) (file : Rom.FileView)
    (program : List UInt8) :
    let loaded := m.loadFile path file
    let stored := m.loadProgram program
    (∀ e, loaded.1 = .error e ↔ Rom.Refused (.ofList path.baseName) file e) ∧
      (∀ e, loaded.1 = .error e → loaded.2 = m) ∧
      (loaded.1 = .ok () ↔ ∃ size bytes, file = .regular size (some bytes) ∧
        1 ≤ size ∧ size ≤ 3584 ∧ 1 ≤ bytes.length ∧ bytes.length ≤ 3584) ∧
      (∀ size bytes, file = .regular size (some bytes) → loaded.1 = .ok () →
        loaded.2 = .ofProgram bytes (.ofPath path bytes.length)) ∧
      (∀ e, stored.1 = .error e ↔
        (program.length = 0 ∨ 3584 < program.length) ∧
          e = .badSize "<memory>" program.length) ∧
      (∀ e, stored.1 = .error e → stored.2 = m) ∧
      (stored.1 = .ok () ↔ 1 ≤ program.length ∧ program.length ≤ 3584) := by
  intro loaded stored
  refine ⟨m.loadFile_eq_error_iff path file, fun e h => ?_, m.loadFile_eq_ok_iff path file,
    fun size bytes hfile h => ?_, m.loadProgram_eq_error_iff program, fun e h => ?_,
    m.loadProgram_eq_ok_iff program⟩
  · have hrefused := (m.loadFile_eq_error_iff path file e).1 h
    exact congrArg Prod.snd (m.loadFile_of_refused hrefused)
  · obtain ⟨size', bytes', hfile', hpos, hle, hread, hreadLe⟩ :=
      (m.loadFile_eq_ok_iff path file).1 h
    obtain ⟨rfl, heq⟩ := Rom.FileView.regular.inj (hfile.symm.trans hfile')
    obtain rfl := Option.some.inj heq
    show (m.loadFile path file).2 = _
    rw [hfile, m.loadFile_of_le path hpos hle hread hreadLe]
  · have hsize := ((m.loadProgram_eq_error_iff program e).1 h).1
    exact congrArg Prod.snd (m.loadProgram_of_not_le hsize)

/-- A machine at work: it has executed an instruction of its program. -/
def atWork : Machine := (Machine.new.loadProgram [0x6A, 0x3C]).2.step ⟨⟨Keypad.none, 0⟩, 5, false⟩

/-- The path of a file in a directory. -/
def pong : Path := .ofString "roms/PONG.ch8"

/-- A file that is emptied between the look at its size and the reading. -/
def emptiedFile : Rom.FileView := .regular 246 (some [])

theorem emptiedFile_keeps_atWork :
    Rom.Refused (.ofList pong.baseName) emptiedFile (.badSize (.ofList pong.baseName) 0) ∧
      String.ofList pong.baseName = "PONG.ch8" ∧
      atWork.state.reg (.ofNat 0xA) = 0x3C ∧
      atWork.loadFile pong emptiedFile = (.error (.badSize (.ofList pong.baseName) 0), atWork) := by
  have hrefused : Rom.Refused (.ofList pong.baseName) emptiedFile
      (.badSize (.ofList pong.baseName) 0) :=
    .readSize (by decide) (by decide) (.inl rfl)
  obtain ⟨herror, hkeeps, -⟩ := load_refused_iff_and_keeps atWork pong emptiedFile []
  have hfailed := (herror _).2 hrefused
  refine ⟨hrefused, by decide +kernel, by decide +kernel, Prod.ext hfailed (hkeeps _ hfailed)⟩

end Chip8
