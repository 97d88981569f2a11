import Chip8.Runner.Shared
import Chip8.Monitor
import Chip8.Disk
import Chip8.Main
import Chip8.Proofs.Drawing
import Chip8.Proofs.Run
import Chip8.Proofs.SelfJump
import Chip8.Proofs.Frame
import Chip8.Proofs.Subroutine
import Chip8.Proofs.HaltedTime
import Chip8.Proofs.Alias
import Chip8.Proofs.InstructionText
import Chip8.Proofs.Reachable
import Chip8.Proofs.Frames
import Chip8.Proofs.LoopHalt
import Chip8.Proofs.SharedRun
import Chip8.Proofs.TimerDecay
import Chip8.Proofs.Loading
import Chip8.Proofs.ScreenCells
import Chip8.Proofs.TimeIndependence
import Chip8.Proofs.FaultFree
import Chip8.Proofs.CommandOutcome
import Chip8.Proofs.RunEnd
import Chip8.Proofs.Calls
import Chip8.Proofs.Pacing
import Chip8.Proofs.SplitRun
import Chip8.Proofs.FreshLoad
import Chip8.Proofs.Attachment
import Chip8.Proofs.Footprint
import Chip8.Proofs.ProgramCounter
import Chip8.Proofs.StraightLine
import Chip8.Proofs.KeyWait
import Chip8.Proofs.FlagArithmetic
import Chip8.Proofs.Overlay
import Chip8.Proofs.BlockTransfer
import Chip8.Proofs.BusyWait
import Chip8.Proofs.MarkedRow
import Chip8.Proofs.LastWrite
import Chip8.Proofs.ListingReadBack
import Chip8.Proofs.LetterCase
import Chip8.Proofs.PictureText
import Chip8.Proofs.PathSpelling
import Chip8.Proofs.HiddenDirectories
