import Famicom.Main
import Famicom.Proofs.Cartridge.Loading
import Famicom.Proofs.Machine.Loading
import Famicom.Proofs.Cpu.Morphism
import Famicom.Proofs.Cpu.Settled
import Famicom.Proofs.Video.InRange
import Famicom.Proofs.Audio.InRange
import Famicom.Proofs.Cartridge.InRange
import Famicom.Proofs.Machine.InRange
import Famicom.Proofs.Machine.Audible
import Famicom.Proofs.Machine.Resume
import Famicom.Proofs.Machine.Rate
import Famicom.Proofs.Video.Position
import Famicom.Proofs.Video.World
import Famicom.Proofs.Video.Background
import Famicom.Proofs.Video.Frame
import Famicom.Proofs.Cartridge.Checked
import Famicom.Proofs.Video.Checked
import Famicom.Proofs.Audio.Checked
import Famicom.Proofs.Cpu.Checked
import Famicom.Proofs.Machine.Checked
import Famicom.Proofs.Machine.Interleaving
import Famicom.Proofs.Machine.Looping
import Famicom.Proofs.Machine.Requests
import Famicom.Proofs.Cpu.Cost
import Famicom.Proofs.Machine.Time
import Famicom.Proofs.Video.Sprites
import Famicom.Proofs.Video.Compositing
import Famicom.Proofs.Video.SpriteFrame
import Famicom.Proofs.Audio.Samples
import Famicom.Proofs.Audio.Enables
import Famicom.Proofs.Audio.Resampling
import Famicom.Proofs.Video.Interrupt
import Famicom.Proofs.Video.Blanking
import Famicom.Proofs.Video.DataPort
import Famicom.Proofs.Cpu.Accesses
import Famicom.Proofs.Cpu.Return
import Famicom.Proofs.Cartridge.Events
import Famicom.Proofs.Cartridge.Filling
import Famicom.Proofs.Cartridge.Serial
import Famicom.Proofs.Cartridge.Banking
import Famicom.Proofs.Cartridge.Foreign
import Famicom.Proofs.Cartridge.Retention
import Famicom.Proofs.Cartridge.Image
import Famicom.Proofs.Machine.Reset
import Famicom.Proofs.Machine.Attainable
import Famicom.Proofs.Machine.Fetch
import Famicom.Proofs.Machine.Isolation
import Famicom.Proofs.Audio.FrameClocks
import Famicom.Proofs.Cartridge.Scanlines
import Famicom.Proofs.Machine.Scanlines
import Famicom.Proofs.Audio.Snapshots
import Famicom.Proofs.Audio.Countdowns
import Famicom.Proofs.Audio.Decay
import Famicom.Proofs.Audio.Pulses
import Famicom.Proofs.Audio.Sweeps
import Famicom.Proofs.Audio.Tones
import Famicom.Proofs.Cartridge.Repetition
import Famicom.Proofs.Cpu.Programs
import Famicom.Proofs.Cpu.Sums
import Famicom.Proofs.Cpu.Shifts
import Famicom.Proofs.Machine.Frames
import Famicom.Proofs.Machine.Transfers
import Famicom.Proofs.Cpu.Timing
import Famicom.Proofs.Video.Evaluation
import Famicom.Proofs.Video.Drawing
import Famicom.Proofs.Names
import Famicom.Proofs.Machine.Joypads
import Famicom.Proofs.Video.ShortFrames
import Famicom.Proofs.Audio.SampleCount
import Famicom.Proofs.Cpu.StatusCopies
