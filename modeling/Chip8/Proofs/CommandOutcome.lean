import Chip8.CommandLine.Terminal
import Chip8.Proofs.Numerals
import Chip8.Proofs.PictureText
import Chip8.Proofs.ReportText
import Chip8.Proofs.RunEnd

/-!
# How the command ends

With arguments that are not refused the command has two ends. Either the program file is not loaded:
then nothing is printed, and the exit code and the log tell why. Or it is loaded: then the run ends,
and the forty-two lines of its machine's report are printed (`command_ends`). What the lines say of
the machine is spelled out in `Report.Displays`.

There is no third end. The command keeps the machine until the end and nobody poisons its lock. So
the run gets the lock (`Command.lock?_share`), and the monitor, attached before the run, reaches the
machine after it (`Command.print_share`).
-/

set_option autoImplicit false

namespace Chip8

/-! ## What a report says -/

/-- Lines display a state. First come the rows of the screen, then nine words around the program
counter, each with its address and the instruction that it stands for, and last the remaining
registers. -/
structure Report.Displays (s : State) (lines : List String) : Prop where
  length_eq : lines.length = 42
  oneLine : ∀ line ∈ lines, '\n' ∉ line.toList
  screen : ∀ y (hy : y < 32), lines[y]? = some (.ofList (List.ofFn fun x : Fin 64 =>
    if s.screen.get ⟨x.val + 64 * y, by show _ < 2048; omega⟩ = 0 then ' ' else '@'))
  listing : ∀ k < 9,
    let address := UInt16.ofNat (max s.pc.toNat 8 - 8 + 2 * k)
    let word := 256 * (s.memory.read address).toNat + (s.memory.read (address + 1)).toNat
    lines[32 + k]? = some ((if address = s.pc then ">" else " ") ++ " "
      ++ Hexadecimal.padded 3 address.toNat ++ ": " ++ Hexadecimal.padded 4 word ++ "  "
      ++ (Instruction.ofWord (UInt16.ofNat word)).mnemonic)
  registers : lines[41]? = some ("I=" ++ Hexadecimal.padded 3 s.i.toNat ++ " SP="
    ++ toString s.sp.toNat ++ " DT=" ++ toString s.delay.toNat ++ " ST=" ++ toString s.sound.toNat)

theorem Report.displays_lines (s : State) : Displays s (lines s) where
  length_eq := length_lines s
  oneLine _ h := oneLine_of_mem_lines s h
  screen y hy := by rw [getElem?_lines_screen s hy, s.screen.rowText_eq_ofFn hy]
  listing k hk := by
    intro address word
    -- The row shows the word in hexadecimal and as an instruction.
    have hword : s.wordAt address = UInt16.ofNat word := rfl
    have htoNat : (s.wordAt address).toNat = word := toNat_wordOfBytes _ _
    have hrow : (lines s)[32 + k]? = some (rowLine s.pc (s.listingRow address)) :=
      getElem?_lines_listing s hk
    rw [hrow, rowLine, State.listingRow, disassemble, htoNat, hword, Hexadecimal.numeral_eq_padded,
      Hexadecimal.numeral_eq_padded]
  registers := by
    have hlast : (lines s)[41]? = some (registerLine s.i s.sp s.delay s.sound) :=
      getElem?_lines_registers s
    rw [hlast, registerLine, Hexadecimal.numeral_eq_padded]

/-! ## A machine that the command keeps -/

namespace Pool

theorem get?_add (p : Pool) (machine : Machine) :
    (p.add machine).2.get? (p.add machine).1 = some ⟨machine, false, [.maker]⟩ := by
  simp [add, get?]

theorem lock?_add (p : Pool) (machine : Machine) :
    (p.add machine).2.lock? (p.add machine).1 = some machine := by
  rw [lock?, get?_add]
  rfl

end Pool

namespace CommandLine.Command

/-! ## What the log is told -/

/-- A failure that is about a program's name is told with the name between fixed texts. -/
theorem loadFailure_of_append_eq {e : Rom.LoadError} {name rest : String}
    (h : e.message ++ (" (" ++ (e.status ++ ")")) = "ROM " ++ (name ++ rest)) :
    loadFailure e = ⟨.error, "[APP]: ROM " ++ name ++ rest⟩ := by
  have hbegin : "[APP]: ROM " = "[APP]: " ++ "ROM " := rfl
  rw [loadFailure, message, hbegin]
  simp only [String.append_assoc]
  rw [h]

theorem loadFailure_eq (e : Rom.LoadError) :
    loadFailure e = ⟨.error, match e with
      | .notFound name => "[APP]: ROM " ++ name ++ " was not found (FileNotFound)"
      | .unreadable name =>
          "[APP]: ROM " ++ name ++ " could not be opened for reading (FileNotGood)"
      | .badSize name size =>
          "[APP]: ROM " ++ name ++ " has an invalid size of " ++ toString size
            ++ " bytes, expected 1 to 3584 (InvalidFileSize)"⟩ := by
  cases e with
  | notFound name =>
    apply loadFailure_of_append_eq
    simp only [Rom.LoadError.message, String.append_assoc]
    rfl
  | unreadable name =>
    apply loadFailure_of_append_eq
    simp only [Rom.LoadError.message, String.append_assoc]
    rfl
  | badSize name size =>
    have hend : " bytes, expected 1 to " ++ (toString Rom.capacity ++ " (InvalidFileSize)") =
        " bytes, expected 1 to 3584 (InvalidFileSize)" := by decide +kernel
    have h : loadFailure (.badSize name size) = ⟨.error, "[APP]: ROM " ++ name
        ++ (" has an invalid size of " ++ (toString size
          ++ " bytes, expected 1 to 3584 (InvalidFileSize)"))⟩ := by
      apply loadFailure_of_append_eq
      simp only [Rom.LoadError.message, String.append_assoc, ← hend]
      rfl
    rw [h]
    simp only [String.append_assoc]

/-- The log is told that a loop halted the run, or else that the command did. -/
theorem runEnd_halt {α : Type} [PaceNumber α] {r : Runner α}
    (h : r.status = .running ∨ r.status = .halted .loopDetected) (frames : Nat) :
    runEnd (halt r).status frames =
      ⟨.info, "[APP]: " ++ (if r.isRunning then "Halted (by user)" else "Halted (loop detected)")
        ++ " after " ++ toString frames ++ " frames"⟩ := by
  have htext : (halt r).status.text =
      if r.isRunning then "Halted (by user)" else "Halted (loop detected)" := by
    rcases h with hstatus | hstatus
    · -- The command stops a run that nothing else has ended.
      have hrun : r.isRunning = true := decide_eq_true hstatus
      rw [halt, if_pos hrun, if_pos hrun]
      rfl
    · have hrun : ¬ r.isRunning = true := by
        rw [Runner.isRunning, hstatus]
        decide
      rw [halt, if_neg hrun, if_neg hrun, hstatus]
      rfl
  simp only [runEnd, message, htext, String.append_assoc]

/-! ## The outcome -/

variable {α σ : Type} [PaceNumber α] [Host (StateM σ)]

/-- The run that the command makes of a loaded machine. -/
def runOn (α : Type) [PaceNumber α] (a : Arguments) (machine : Machine) (host : σ) : Run α :=
  (((Runner.ofSettings a.settings).run machine a.heldKeys a.settings.maxFrames.toNat :
    StateM σ _).run host).1

/-- The lock is free when the run asks for it. -/
theorem lock?_share (machine : Machine) :
    (share machine).pool.lock? (share machine).id = some machine := Pool.lock?_add .empty machine

/-- After the run the machine is there for the monitor, and nothing ends the printing. -/
theorem print_share (machine final : Machine) :
    (Report.print (share machine).monitor ((share machine).after final)).run.run "" =
      (.ok (), textOf (Report.lines final.state)) := by
  have hget : ((share machine).after final).get? (share machine).id =
      some ⟨final, false, [.maker]⟩ := by
    have hadd : (share machine).pool.get? (share machine).id =
        some ⟨machine, false, [.maker]⟩ := Pool.get?_add .empty machine
    rw [Sharing.after, Pool.get?_setMachine, hadd]
    rfl
  have htarget : (share machine).monitor.target = some (share machine).id := rfl
  have haccess := Monitor.access_eq_ok_iff.2 ⟨htarget, _, hget, rfl, rfl⟩
  have hprints := Report.prints_print final.state (Monitor.read_of_access haccess)
  rw [hprints, String.empty_append]

/-- What is left of the command after a run. -/
def ran (run : Run α) : Outcome :=
  ⟨0, textOf (Report.lines run.machine.state), "", [runEnd (halt run.runner).status run.frames]⟩

theorem run_runMachine (a : Arguments) (machine : Machine) (host : σ) :
    ((runMachine α a machine : StateM σ Outcome).run host).1 = ran (runOn α a machine host) := by
  have hreport : ∀ (told : Message) (final : Machine),
      report told (share machine).monitor ((share machine).after final) =
        ⟨0, textOf (Report.lines final.state), "", [told]⟩ := by
    intro told final
    rw [report, print_share]
  rw [ran, ← hreport, runMachine, lock?_share]
  rfl

/-- The command ends in one of two ways. -/
theorem run_runProgram (view : Path → StateM σ Rom.FileView) (a : Arguments) (host : σ) :
    let seen := (view a.rom).run host
    ((runProgram α view a : StateM σ Outcome).run host).1 =
      match Machine.new.loadFile a.rom seen.1 with
      | (.error e, _) => ⟨1, "", "", [loadFailure e]⟩
      | (.ok (), machine) => ran (runOn α a machine seen.2) := by
  intro seen
  have hseen : (runProgram α view a : StateM σ Outcome).run host =
      ((match Machine.new.loadFile a.rom seen.1 with
        | (.error e, _) => return ⟨1, "", "", [loadFailure e]⟩
        | (.ok (), machine) => runMachine α a machine) : StateM σ Outcome).run seen.2 := rfl
  rw [hseen]
  split
  · rfl
  · exact run_runMachine a _ seen.2

end CommandLine.Command

/-! ## The theorem -/

namespace CommandLine

open Command

/-- The whole command, with any numbers to pace the run, any files and host, any way of reading
arguments and any arguments that are not refused. It ends with the exit code 1 and without output
exactly if the program file is not loaded; then the log is told the failure with its status, in
these words, and nothing else. If the file is loaded, the run gets the lock and ends, no fault ends
the printing, the exit code is 0, the log is told how the run ended, and the output is forty-two
lines that display the final machine. -/
theorem command_ends {α σ β : Type} [PaceNumber α] [Host (StateM σ)]
    (parse : List β → Except Outcome Arguments) (view : Path → StateM σ Rom.FileView)
    {args : List β} {a : Arguments} (hargs : parse args = .ok a) (host : σ) :
    let seen := (view a.rom).run host
    let loaded := Machine.new.loadFile a.rom seen.1
    let outcome := ((Command.run α parse view args : StateM σ Outcome).run host).1
    (outcome.exitCode = 1 ↔ ∃ e, loaded.1 = .error e) ∧
      (outcome.output = "" ↔ ∃ e, loaded.1 = .error e) ∧ outcome.complaint = "" ∧
      (∀ e, loaded.1 = .error e → outcome.log = [⟨.error, match e with
        | .notFound name => "[APP]: ROM " ++ name ++ " was not found (FileNotFound)"
        | .unreadable name =>
            "[APP]: ROM " ++ name ++ " could not be opened for reading (FileNotGood)"
        | .badSize name size =>
            "[APP]: ROM " ++ name ++ " has an invalid size of " ++ toString size
              ++ " bytes, expected 1 to 3584 (InvalidFileSize)"⟩]) ∧
      (loaded.1 = .ok () →
        let run := (((Runner.ofSettings a.settings : Runner α).run loaded.2 a.heldKeys
          a.maxFrames.toNat : StateM σ _).run seen.2).1
        (run.frames ≤ a.maxFrames.toNat ∧
          (run.frames = a.maxFrames.toNat ∨ run.runner.isRunning = false) ∧
          ∃ is, run.machine = loaded.2.run is) ∧
        (share loaded.2).pool.lock? (share loaded.2).id = some loaded.2 ∧
        (Report.print (share loaded.2).monitor ((share loaded.2).after run.machine)).run.run "" =
          (.ok (), outcome.output) ∧
        outcome.exitCode = 0 ∧
        outcome.log = [⟨.info, "[APP]: "
          ++ (if run.runner.isRunning then "Halted (by user)" else "Halted (loop detected)")
          ++ " after " ++ toString run.frames ++ " frames"⟩] ∧
        ∃ lines, outcome.output = textOf lines ∧ Report.Displays run.machine.state lines) := by
  intro seen loaded outcome
  have houtcome : outcome = match loaded with
      | (.error e, _) => ⟨1, "", "", [loadFailure e]⟩
      | (.ok (), machine) => ran (runOn α a machine seen.2) := by
    show ((Command.run α parse view args : StateM σ Outcome).run host).1 = _
    rw [Command.run, hargs]
    exact run_runProgram view a host
  clear_value outcome loaded
  -- What became of the file decides between the two ends.
  obtain ⟨result, machine⟩ := loaded
  cases result with
  | error e =>
    subst houtcome
    refine ⟨⟨fun _ => ⟨e, rfl⟩, fun _ => rfl⟩, ⟨fun _ => ⟨e, rfl⟩, fun _ => rfl⟩, rfl, ?_, ?_⟩
    · intro e' h
      obtain rfl := Except.error.inj h
      exact congrArg (fun m => [m]) (loadFailure_eq e)
    · intro h
      simp at h
  | ok _ =>
    subst houtcome
    have hnone : ¬ ∃ e, (Except.ok () : Except Rom.LoadError Unit) = .error e := nofun
    refine ⟨⟨fun h => ?_, fun h => absurd h hnone⟩, ⟨fun h => ?_, fun h => absurd h hnone⟩, rfl,
      nofun, ?_⟩
    · have hcode : (0 : UInt8) = 1 := h
      exact absurd hcode (by decide)
    · exact absurd h (textOf_ne_empty (Report.lines_ne_nil _))
    · intro _ run
      have hlog := runEnd_halt (Runner.status_run _ _ _ _ _ : run.runner.status = _ ∨ _) run.frames
      exact ⟨Runner.run_ends _ _ _ _ _, lock?_share machine, print_share machine run.machine, rfl,
        congrArg (fun m => [m]) hlog, Report.lines run.machine.state, rfl, Report.displays_lines _⟩

/-- A program calls a subroutine, which sets the index register and both timers and then jumps to
itself. It is run and shown. A file that is not there is not. -/
theorem timers_file_shown :
    let parse := Release.parse ⟨"chip8-vm", "0.1.0"⟩
    let args := ["game.ch8", "-m", "9"]
    let a : Arguments := ⟨.ofString "game.ch8", "", 500, 9, false, false⟩
    let host := Simulated.start 1
    -- CALL 202; LD I, 123; LD V0, 2A; LD DT, V0; LD ST, V0; JP 20A
    let program := [0x22, 0x02, 0xA1, 0x23, 0x60, 0x2A, 0xF0, 0x15, 0xF0, 0x18, 0x12, 0x0A]
    let timers : Path → StateM Simulated Rom.FileView := fun _ => pure (.regular 12 (some program))
    let absent : Path → StateM Simulated Rom.FileView := fun _ => pure .absent
    let shown := ((Command.run Rat parse timers args : StateM Simulated Outcome).run host).1
    let refused := ((Command.run Rat parse absent args : StateM Simulated Outcome).run host).1
    parse args = .ok a ∧ shown.exitCode = 0 ∧
      shown.log = [⟨.info, "[APP]: Halted (loop detected) after 2 frames"⟩] ∧
      (∃ lines, shown.output = textOf lines ∧ lines.length = 42 ∧
        lines[32]? = some "  202: A123  LD I, 123" ∧ lines[36]? = some "> 20A: 120A  JP 20A" ∧
        lines[41]? = some "I=123 SP=1 DT=42 ST=42") ∧
      refused.exitCode = 1 ∧ refused.output = "" ∧
      refused.log = [⟨.error, "[APP]: ROM game.ch8 was not found (FileNotFound)"⟩] := by
  intro parse args a host program timers absent shown refused
  have hargs : parse args = .ok a := rfl
  obtain ⟨-, -, -, -, hshown⟩ := command_ends (α := Rat) parse timers hargs host
  obtain ⟨hcode, houtput, -, hlog, -⟩ := command_ends (α := Rat) parse absent hargs host
  obtain ⟨-, -, -, hzero, htold, lines, htext, hdisplays⟩ := hshown rfl
  refine ⟨hargs, hzero, ?_, ⟨lines, htext, hdisplays.length_eq, ?_, ?_, ?_⟩, hcode.2 ⟨_, rfl⟩,
    houtput.2 ⟨_, rfl⟩, (hlog _ rfl).trans (by decide +kernel)⟩
  · rw [htold]
    decide +kernel
  · rw [hdisplays.listing 0 (by decide)]
    decide +kernel
  · rw [hdisplays.listing 4 (by decide)]
    decide +kernel
  · rw [hdisplays.registers]
    decide +kernel

end CommandLine

end Chip8
