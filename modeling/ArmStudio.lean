import ArmStudio.Fault
import ArmStudio.Proofs.Grouping
import ArmStudio.Proofs.Gaps
import ArmStudio.Proofs.Resolution
import ArmStudio.Proofs.Regions
import ArmStudio.Proofs.Nesting
import ArmStudio.Proofs.SpareWord
import ArmStudio.Proofs.Initialisers
import ArmStudio.Proofs.DigestStandard
import ArmStudio.Proofs.ControlFlow
import ArmStudio.Proofs.Deployment
import ArmStudio.Proofs.Assignments
import ArmStudio.Proofs.FlashReading
import ArmStudio.Proofs.StatementEnds
import ArmStudio.Proofs.TaskQueue
import ArmStudio.Proofs.PoseMoves
import ArmStudio.Proofs.PublishedTargets
import ArmStudio.Proofs.Conversions
import ArmStudio.Proofs.FoldedOperators
import ArmStudio.Proofs.CallReturn
import ArmStudio.Proofs.RealComparisons
import ArmStudio.Proofs.Fetching
import ArmStudio.Proofs.ConstantArea
import ArmStudio.Proofs.ExpressionEnds
import ArmStudio.Proofs.FrameOperands
import ArmStudio.Proofs.SystemCalls
import ArmStudio.Proofs.Rendering
import ArmStudio.Proofs.Requests
import ArmStudio.Proofs.MarkLabels
import ArmStudio.Proofs.HeldMarks
import ArmStudio.Proofs.RecentPoses
import ArmStudio.Proofs.SquareGroups
import ArmStudio.Proofs.QuarterWave
import ArmStudio.Proofs.ScopeHistory
import ArmStudio.Proofs.NumberCodec
import ArmStudio.Proofs.WholeTurns
