import FieldEngine.CommandLine
import FieldEngine.Console.Basic
import FieldEngine.Console.Command
import FieldEngine.Console.Completion
import FieldEngine.Console.Demo
import FieldEngine.Console.Files
import FieldEngine.Console.Loop
import FieldEngine.Error
import FieldEngine.Field.Bank
import FieldEngine.Field.EntityId
import FieldEngine.Field.EntityTable
import FieldEngine.Field.Fault
import FieldEngine.Field.LittleEndian
import FieldEngine.Field.Memory
import FieldEngine.Field.State
import FieldEngine.Host.BreakClass
import FieldEngine.Host.Cluster
import FieldEngine.Host.Disk
import FieldEngine.Host.KeyStream
import FieldEngine.Host.PathCompletion
import FieldEngine.Host.TypedLine
import FieldEngine.Machine.Cursor
import FieldEngine.Machine.Step
import FieldEngine.Machine.WaitReason
import FieldEngine.Main
import FieldEngine.Packed.Header
import FieldEngine.Packed.Shape
import FieldEngine.Packed.Value
import FieldEngine.Scheduler.Basic
import FieldEngine.Scheduler.HostEvent
import FieldEngine.Scheduler.Instance
import FieldEngine.Scheduler.Report
import FieldEngine.Script.Assembler
import FieldEngine.Script.DecodeError
import FieldEngine.Script.Decoder
import FieldEngine.Script.Expr
import FieldEngine.Script.Instruction
import FieldEngine.Script.Listing
import FieldEngine.Script.Opcode
import FieldEngine.Script.OperandStack
import FieldEngine.Script.Program
import FieldEngine.Script.Reader
import FieldEngine.Script.Word
import FieldEngine.Session.Basic
import FieldEngine.Session.Codec
import FieldEngine.Session.Snapshot
import FieldEngine.Text.Blank
import FieldEngine.Text.Layout
import FieldEngine.Text.Numeral
import FieldEngine.Text.Thousandths
import FieldEngine.Trace.Buffer
import FieldEngine.Trace.Event
import FieldEngine.Trace.Human
import FieldEngine.Trace.Json
import FieldEngine.Trace.Tracer
import FieldEngine.Proofs.Session.History
import FieldEngine.Proofs.Machine.Steps
import FieldEngine.Proofs.Scheduler.Badges
import FieldEngine.Proofs.Session.Transition
import FieldEngine.Proofs.Script.Validity
import FieldEngine.Proofs.Session.Restoring
import FieldEngine.Proofs.Session.Provenance
import FieldEngine.Proofs.Session.Content
import FieldEngine.Proofs.Session.Continuation
import FieldEngine.Proofs.Script.Assembly
import FieldEngine.Proofs.Packed.RoundTrip
import FieldEngine.Proofs.Packed.Shapes
import FieldEngine.Proofs.Session.SavedBytes
import FieldEngine.Proofs.Scheduler.Turns
import FieldEngine.Proofs.Scheduler.Slices
import FieldEngine.Proofs.Session.Timers
import FieldEngine.Proofs.Session.TimerTable
import FieldEngine.Proofs.Session.Editions
import FieldEngine.Proofs.Script.Settings
import FieldEngine.Proofs.Session.Replacement
import FieldEngine.Proofs.Console.Failure
import FieldEngine.Proofs.Machine.Faults
import FieldEngine.Proofs.Scheduler.Lifecycle
import FieldEngine.Proofs.Session.Tracing
import FieldEngine.Proofs.Session.Settings
import FieldEngine.Proofs.Script.Concatenation
import FieldEngine.Proofs.Machine.Ownership
import FieldEngine.Proofs.Machine.Listing
import FieldEngine.Proofs.Script.StackMachine
import FieldEngine.Proofs.Session.HostEvents
import FieldEngine.Proofs.Scheduler.Isolation
import FieldEngine.Proofs.Machine.Effects
import FieldEngine.Proofs.Scheduler.Frame
import FieldEngine.Proofs.Machine.Cursors
import FieldEngine.Proofs.Script.Targets
import FieldEngine.Proofs.Script.Addresses
import FieldEngine.Proofs.Script.Refusals
import FieldEngine.Proofs.Field.Views
import FieldEngine.Proofs.Script.Arithmetic
import FieldEngine.Proofs.Trace.Window
import FieldEngine.Proofs.Scheduler.Reports
import FieldEngine.Proofs.Text.Words
import FieldEngine.Proofs.Console.Numbers
import FieldEngine.Proofs.Console.Completing
import FieldEngine.Proofs.Console.Variables
import FieldEngine.Proofs.Text.JsonGrammar
import FieldEngine.Proofs.Trace.JsonRecords
import FieldEngine.Proofs.Script.Depth
import FieldEngine.Proofs.Script.Operands
import FieldEngine.Proofs.Script.Reading
import FieldEngine.Proofs.Session.Stamps
import FieldEngine.Proofs.Trace.Queries
import FieldEngine.Proofs.Session.TickOrder
