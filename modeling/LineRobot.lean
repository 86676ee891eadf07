import LineRobot.Text.Position
import LineRobot.Text.Blank
import LineRobot.Number.Binary64
import LineRobot.Number.Decimal
import LineRobot.Source.Cast
import LineRobot.Source.Cleaning
import LineRobot.Token.Basic
import LineRobot.Token.Scan
import LineRobot.Expression.Basic
import LineRobot.Expression.Parser
import LineRobot.Statement.Basic
import LineRobot.Statement.Parser
import LineRobot.Rejection
import LineRobot.Source.Definition
import LineRobot.Routine.Basic
import LineRobot.Routine.Resolution
import LineRobot.Code.Assembly
import LineRobot.Code.Program
import LineRobot.Machine.Basic
import LineRobot.Machine.Task
import LineRobot.Robot.Canvas
import LineRobot.Robot.Drive
import LineRobot.Robot.Sensor
import LineRobot.Toml.Draft
import LineRobot.Toml.Moment
import LineRobot.Toml.Scalar
import LineRobot.Toml.Quoted
import LineRobot.Toml.Line
import LineRobot.Toml.Document
import LineRobot.Toml.Written
import LineRobot.Toml.Library
import LineRobot.Toml.Conversion
import LineRobot.Setup.Basic
import LineRobot.Setup.Document
import LineRobot.Simulation
import LineRobot.Proofs.Syntax.ReadStatement
import LineRobot.Proofs.Machine.Safety
import LineRobot.Proofs.Machine.Limits
import LineRobot.Proofs.Machine.Bounded
import LineRobot.Proofs.Task.Schedule
import LineRobot.Proofs.Task.Unbroken
import LineRobot.Proofs.Delegation.Schedule
import LineRobot.Proofs.Machine.Commands
import LineRobot.Proofs.Simulation.Operations
import LineRobot.Proofs.Simulation.Wheels
import LineRobot.Proofs.Task.Ending
import LineRobot.Proofs.Simulation.Sensors
import LineRobot.Proofs.Number.Zero
import LineRobot.Proofs.Simulation.Standstill
import LineRobot.Proofs.Source.Places
import LineRobot.Proofs.Token.Spelling
import LineRobot.Proofs.Token.Cleaned
import LineRobot.Proofs.Code.WellFormed
import LineRobot.Proofs.Source.CommentFree
import LineRobot.Proofs.Source.Lines
import LineRobot.Proofs.Source.Headers
import LineRobot.Proofs.Source.OutermostPairs
import LineRobot.Proofs.Source.Casts
import LineRobot.Proofs.Syntax.Leaves
import LineRobot.Proofs.Syntax.Progress
import LineRobot.Proofs.Code.Suspensions
import LineRobot.Proofs.Robot.Painting
import LineRobot.Proofs.Simulation.Channels
import LineRobot.Proofs.Setup.RoundTrip
import LineRobot.Proofs.Code.Slots
import LineRobot.Proofs.Machine.BitOperators
