import AppleII.Host.Sandbox
import AppleII.Main
import AppleII.Proofs.History.Timeline
import AppleII.Proofs.Base64
import AppleII.Proofs.SaveState.Drive
import AppleII.Proofs.SaveState.Switches
import AppleII.Proofs.SaveState.RoundTrip
import AppleII.Proofs.SaveState.Malformed
import AppleII.Proofs.Machine.Agreement
import AppleII.Proofs.Machine.Future
import AppleII.Proofs.Machine.InPlace
import AppleII.Proofs.Disk.Checksum
import AppleII.Proofs.Disk.Nibble
import AppleII.Proofs.Disk.Revolution
import AppleII.Proofs.Disk.Recording
import AppleII.Proofs.Disk.WriteSession
import AppleII.Proofs.Disk.Container
import AppleII.Proofs.Disk.Conversion
import AppleII.Proofs.Disk.SectorImage
import AppleII.Proofs.Scheduler.Requests
import AppleII.Proofs.Scheduler.Breakpoints
import AppleII.Proofs.Disk.Handling
import AppleII.Proofs.Disk.Motors
import AppleII.Proofs.Memory.Banks
import AppleII.Proofs.Machine.Motors
import AppleII.Proofs.Disk.Decoding
import AppleII.Proofs.Machine.Disks
import AppleII.Proofs.Disk.Saved
import AppleII.Proofs.Machine.Resumption
import AppleII.Proofs.Scheduler.StepOver
import AppleII.Proofs.Scheduler.Halts
import AppleII.Proofs.Scheduler.TimeTravel
import AppleII.Proofs.Scheduler.Travel
import AppleII.Proofs.Disk.Protection
import AppleII.Proofs.Disk.Controls
import AppleII.Proofs.Machine.Controls
import AppleII.Proofs.Disk.Hearing
import AppleII.Proofs.Scheduler.Agreement
import AppleII.Proofs.Scheduler.Publication
import AppleII.Proofs.Memory.LanguageCard
import AppleII.Proofs.SaveState.Replacement
import AppleII.Proofs.Scheduler.Snapshots
import AppleII.Proofs.Disk.Events
import AppleII.Proofs.Disk.Synchronization
import AppleII.Proofs.Disk.Rotation
import AppleII.Proofs.Disk.Stepper
import AppleII.Proofs.Machine.MotorDelay
import AppleII.Proofs.Processor.Compatibility
import AppleII.Proofs.Processor.StackFrames
import AppleII.Proofs.Processor.Footprint
import AppleII.Proofs.Processor.MultiByte
import AppleII.Proofs.Machine.FlatRun
import AppleII.Proofs.Machine.Interrupts
import AppleII.Proofs.Disk.Corruption
import AppleII.Proofs.Disk.Acceptance
import AppleII.Proofs.Disk.Unsaved
import AppleII.Proofs.Scheduler.RunToAddress
import AppleII.Proofs.Scheduler.FrameBudget
import AppleII.Proofs.Memory.Toggles
import AppleII.Proofs.Memory.Keyboard
import AppleII.Proofs.Scheduler.Freshness
import AppleII.Proofs.Disk.HeadMoves
import AppleII.Proofs.Disk.RecentBytes
