import Chip8.Datum.Decode
import Chip8.Instruction.Encode
import Chip8.Machine.Dump
import Chip8.Machine.Operation
import Chip8.Machine.Trace
import Chip8.Main
import Chip8.Proofs.Decoding
import Chip8.Proofs.Execution
import Chip8.Proofs.Cycles
import Chip8.Proofs.Steps
import Chip8.Proofs.History
import Chip8.Proofs.Coherence
import Chip8.Proofs.Moments
import Chip8.Proofs.Idle
import Chip8.Proofs.Faults
import Chip8.Proofs.KeyWait
import Chip8.Proofs.FixedTiming
import Chip8.Proofs.Spending
import Chip8.Proofs.Slicing
import Chip8.Proofs.LowSprite
import Chip8.Proofs.HighSprite
import Chip8.Proofs.Countdown
import Chip8.Proofs.Pace
import Chip8.Proofs.Frames
import Chip8.Proofs.Delivery
import Chip8.Proofs.Endings
import Chip8.Proofs.FailedFrames
import Chip8.Proofs.ToneReports
import Chip8.Proofs.ExitRequests
import Chip8.Proofs.FrameTime
import Chip8.Proofs.Events
import Chip8.Proofs.Lockstep
import Chip8.Proofs.FreeSlots
import Chip8.Proofs.CallStack
import Chip8.Proofs.Writes
import Chip8.Proofs.HighIndex
import Chip8.Proofs.Habits
import Chip8.Proofs.RandomDraws
import Chip8.Proofs.Checked.Session
import Chip8.Proofs.Successor
import Chip8.Proofs.Tracing
import Chip8.Proofs.PreferencesFile
import Chip8.Proofs.Arithmetic
import Chip8.Proofs.RegisterBlocks
import Chip8.Proofs.Costs
import Chip8.Proofs.DrawOrder
import Chip8.Proofs.Scrolling
import Chip8.Proofs.Blocks
import Chip8.Proofs.CommandLine
import Chip8.Proofs.Keypad
import Chip8.Proofs.ScreenViews
import Chip8.Proofs.Rates
import Chip8.Proofs.Mnemonics
