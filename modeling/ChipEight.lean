import ChipEight.Machine.Operation
import ChipEight.Main
import ChipEight.Proofs.CallReturn
import ChipEight.Proofs.Drawing
import ChipEight.Proofs.Interleaving
import ChipEight.Proofs.Policy
import ChipEight.Proofs.Refusal
import ChipEight.Proofs.Restart
import ChipEight.Proofs.Untouched
import ChipEight.Proofs.Wide.Bounds
import ChipEight.Proofs.LastWritten
import ChipEight.Proofs.Player.Frames
import ChipEight.Proofs.RandomStream
import ChipEight.Proofs.Player.Pausing
import ChipEight.Proofs.Player.Window
import ChipEight.Proofs.Redraw
import ChipEight.Proofs.Player.Picture
import ChipEight.Proofs.HeldKeys
import ChipEight.Proofs.Parity
import ChipEight.Proofs.Player.Beeper
import ChipEight.Proofs.Player.Keys
import ChipEight.Proofs.NextAddress
import ChipEight.Proofs.Countdown
import ChipEight.Proofs.Audit
import ChipEight.Proofs.Effects
import ChipEight.Proofs.SavedRegisters
import ChipEight.Proofs.Arithmetic
import ChipEight.Proofs.Waiting
import ChipEight.Proofs.EvenCounter
import ChipEight.Proofs.Text.Numerals
import ChipEight.Proofs.Text.Templates
import ChipEight.Proofs.Reports
import ChipEight.Proofs.Player.Raster
import ChipEight.Proofs.TraceLines
import ChipEight.Proofs.Flips
import ChipEight.Proofs.Binary32.Fields
import ChipEight.Proofs.Binary32.Nearest
import ChipEight.Proofs.Binary32.Values
import ChipEight.Proofs.Text.Integers
import ChipEight.Proofs.Binary32.Literals
import ChipEight.Proofs.Volumes
import ChipEight.Proofs.Arguments.Reading
import ChipEight.Proofs.CommandLine.Reading
