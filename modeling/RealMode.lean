import RealMode.Main
import RealMode.Proofs.LawfulBus
import RealMode.Proofs.BlockCopy
import RealMode.Proofs.MoveCollision
import RealMode.Proofs.RepeatedMove
import RealMode.Proofs.FailedService
import RealMode.Proofs.OperandShape
import RealMode.Proofs.InstructionGrammar
import RealMode.Proofs.ServedErrors
import RealMode.Proofs.SegmentedAccess
import RealMode.Proofs.ServiceTable
import RealMode.Proofs.Pc.LawfulBoard
import RealMode.Proofs.Pc.MirroredScreen
import RealMode.Proofs.Pc.ServedScreen
import RealMode.Proofs.Pc.ClockReadings
import RealMode.Proofs.Pc.LoadedImage
import RealMode.Proofs.EncodingLength
import RealMode.Proofs.Pc.ScrolledPage
import RealMode.Proofs.Pc.EndlessTerminal
import RealMode.Proofs.InstructionReach
import RealMode.Proofs.LastingProperty
import RealMode.Proofs.Pc.SoundMachine
import RealMode.Proofs.Pc.PageBounds
import RealMode.Proofs.MemorySimulation
import RealMode.Proofs.Pc.PowerCycle
import RealMode.Proofs.FlagsImage
import RealMode.Proofs.PushedImages
import RealMode.Proofs.Pc.ReachableMachine
import RealMode.Proofs.Pc.SavedState
import RealMode.Proofs.OperandText
import RealMode.Proofs.ListingText
import RealMode.Proofs.UnambiguousListing
import RealMode.Proofs.BusMorphism
import RealMode.Proofs.RefittedState
import RealMode.Proofs.RefittedExecution
import RealMode.Proofs.ModelExtension
import RealMode.Proofs.InterruptFrame
import RealMode.Proofs.ServiceReturn
import RealMode.Proofs.InstructionOutcome
import RealMode.Proofs.VectorEntry
import RealMode.Proofs.GuestReturn
import RealMode.Proofs.Pc.TransparentCall
import RealMode.Proofs.Pc.ExitCode
import RealMode.Proofs.TouchedFlags
import RealMode.Proofs.OverwrittenMemory
import RealMode.Proofs.Footprint
import RealMode.Proofs.StringFootprint
import RealMode.Proofs.InstructionFootprint
import RealMode.Proofs.StepFootprint
import RealMode.Proofs.BranchTarget
import RealMode.Proofs.ControlFlow
import RealMode.Proofs.BudgetedRuns
import RealMode.Proofs.Pc.BudgetedRuns
import RealMode.Proofs.RepeatedStore
import RealMode.Proofs.OverlappingCopy
import RealMode.Proofs.BytewiseAccess
import RealMode.Proofs.PlainMemory
import RealMode.Proofs.Pc.InterchangeableMemory
import RealMode.Proofs.PrintedListing
import RealMode.Proofs.IntegerFlags
import RealMode.Proofs.CarryChain
import RealMode.Proofs.RepeatedComparison
import RealMode.Proofs.ShiftedBits
import RealMode.Proofs.ExactDivision
import RealMode.Proofs.PackedDecimal
import RealMode.Proofs.StackFrames
import RealMode.Proofs.Pc.ScrolledWindow
import RealMode.Proofs.Pc.PrintedString
import RealMode.Proofs.Pc.QueuedKeys
import RealMode.Proofs.Pc.ReportedSuccess
import RealMode.Proofs.Pc.VectorMap
import RealMode.Proofs.Pc.TimeOfDay
import RealMode.Proofs.EffectiveAddress
import RealMode.Proofs.KeptRange
import RealMode.Proofs.EncodedSteps
import RealMode.Proofs.RecursiveFactorial
import RealMode.Proofs.Pc.CompletePrefix
