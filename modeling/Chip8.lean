import Chip8.Interchange.Instruction
import Chip8.Main
import Chip8.Proofs.AccessSafety
import Chip8.Proofs.ArithmeticLaw
import Chip8.Proofs.Assembly
import Chip8.Proofs.BootImage
import Chip8.Proofs.Bursts
import Chip8.Proofs.ClippedSprite
import Chip8.Proofs.ControlBounds
import Chip8.Proofs.Countdown
import Chip8.Proofs.Counters
import Chip8.Proofs.Dialects
import Chip8.Proofs.Faults
import Chip8.Proofs.Grid
import Chip8.Proofs.IndexWindow
import Chip8.Proofs.KeyView
import Chip8.Proofs.LastPut
import Chip8.Proofs.LatchGuard
import Chip8.Proofs.Opcodes
import Chip8.Proofs.Pacing
import Chip8.Proofs.PictureText
import Chip8.Proofs.Publication
import Chip8.Proofs.RandomDraws
import Chip8.Proofs.Redraws
import Chip8.Proofs.Reset
import Chip8.Proofs.Skips
import Chip8.Proofs.SpriteXor
import Chip8.Proofs.StopProtocol
import Chip8.Proofs.Subroutine
import Chip8.Proofs.TimerIndependence
import Chip8.Proofs.Transfers
import Chip8.Proofs.Validation
import Chip8.Proofs.WriteSet
import Chip8.Scheduler.Host
