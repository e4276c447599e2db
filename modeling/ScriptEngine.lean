import ScriptEngine.Assembly.Assembler
import ScriptEngine.Assembly.Lexer
import ScriptEngine.Assembly.Listing
import ScriptEngine.Assembly.SourceError
import ScriptEngine.Assembly.Token
import ScriptEngine.Command
import ScriptEngine.Command.Argument
import ScriptEngine.Command.Offer
import ScriptEngine.Config
import ScriptEngine.Config.Reader
import ScriptEngine.Config.Schema
import ScriptEngine.Config.Token
import ScriptEngine.Config.Value
import ScriptEngine.Heap
import ScriptEngine.Heap.Function
import ScriptEngine.Heap.Table
import ScriptEngine.Image
import ScriptEngine.Image.Cbor
import ScriptEngine.Image.Item
import ScriptEngine.Image.Reader
import ScriptEngine.Image.Record
import ScriptEngine.Log.JournalKey
import ScriptEngine.Log.Span
import ScriptEngine.Machine.Call
import ScriptEngine.Machine.Control
import ScriptEngine.Machine.Execute
import ScriptEngine.Machine.Fault
import ScriptEngine.Machine.Native
import ScriptEngine.Machine.Run
import ScriptEngine.Machine.State
import ScriptEngine.Main
import ScriptEngine.Number.Decimal
import ScriptEngine.Number.Exact
import ScriptEngine.Number.Integer
import ScriptEngine.Number.Interchange
import ScriptEngine.Number.Layout
import ScriptEngine.Number.Literal
import ScriptEngine.Number.Numeral
import ScriptEngine.Number.Shortest
import ScriptEngine.Program
import ScriptEngine.Program.Datum
import ScriptEngine.Program.Opcode
import ScriptEngine.Proofs.Action
import ScriptEngine.Proofs.Acts
import ScriptEngine.Proofs.Calls
import ScriptEngine.Proofs.Dispatch
import ScriptEngine.Proofs.Holding
import ScriptEngine.Proofs.Lockstep
import ScriptEngine.Proofs.MatchingReturn
import ScriptEngine.Proofs.Memory
import ScriptEngine.Proofs.Moves
import ScriptEngine.Proofs.NativeCall
import ScriptEngine.Proofs.Nesting
import ScriptEngine.Proofs.Plain
import ScriptEngine.Proofs.Quiet
import ScriptEngine.Proofs.ReadOnly
import ScriptEngine.Proofs.Separation
import ScriptEngine.Runner.CommandLine
import ScriptEngine.Runner.FileTree
import ScriptEngine.Runner.Host
import ScriptEngine.Runner.Loading
import ScriptEngine.Runner.Mode
import ScriptEngine.Runner.Options
import ScriptEngine.Runner.Session
import ScriptEngine.Runner.Settings
import ScriptEngine.Runner.Slots
import ScriptEngine.Scope
import ScriptEngine.Tap.Globals
import ScriptEngine.Tap.View
import ScriptEngine.Text
import ScriptEngine.Text.Blank
import ScriptEngine.Text.DecimalDigit
import ScriptEngine.Text.Hexadecimal
import ScriptEngine.Text.Letter
import ScriptEngine.Text.Printable
import ScriptEngine.Text.Quoted
import ScriptEngine.Text.Ranges
import ScriptEngine.Text.Utf8
import ScriptEngine.Value.Conversion
import ScriptEngine.Value.Kind
import ScriptEngine.Value.Operator
import ScriptEngine.Value.Property
import ScriptEngine.Value.Rendering
import ScriptEngine.Proofs.ScopeKeeping
import ScriptEngine.Proofs.Assembly.Drafting
import ScriptEngine.Proofs.Closed
import ScriptEngine.Proofs.Completeness
import ScriptEngine.Proofs.Image.Codecs
import ScriptEngine.Proofs.Image.Lawful
import ScriptEngine.Proofs.Image.RoundTrip
import ScriptEngine.Proofs.Number.Layout
import ScriptEngine.Proofs.Reporting
import ScriptEngine.Proofs.Assembly.Extent
import ScriptEngine.Proofs.Assembly.Linking
import ScriptEngine.Proofs.Assembly.RoundTrip
import ScriptEngine.Proofs.FrameLimit
import ScriptEngine.Proofs.HostEntry
import ScriptEngine.Proofs.Leaving
import ScriptEngine.Proofs.Assembly.Labels
import ScriptEngine.Proofs.ControlTransfer
import ScriptEngine.Proofs.Preloading
import ScriptEngine.Proofs.Image.Legibility
import ScriptEngine.Proofs.Image.Building
import ScriptEngine.Proofs.Sparing
import ScriptEngine.Proofs.Immutability
import ScriptEngine.Proofs.Reuse
import ScriptEngine.Proofs.Steady
import ScriptEngine.Proofs.Ending
import ScriptEngine.Proofs.ScopeClosing
import ScriptEngine.Proofs.FaultTrail
import ScriptEngine.Proofs.Constructing
import ScriptEngine.Proofs.Assembly.Acceptance
import ScriptEngine.Proofs.Image.Intake
import ScriptEngine.Proofs.Batch.Returning
import ScriptEngine.Proofs.Image.Normalizing
import ScriptEngine.Proofs.Image.Listing
import ScriptEngine.Proofs.ZeroFlag
import ScriptEngine.Proofs.Filling
import ScriptEngine.Proofs.PropertyAccess
import ScriptEngine.Proofs.ObjectLiteral
import ScriptEngine.Proofs.Independence
import ScriptEngine.Proofs.PrototypeSnapshot
import ScriptEngine.Proofs.WritableSlots
import ScriptEngine.Proofs.Assignment
import ScriptEngine.Proofs.Postfix
import ScriptEngine.Proofs.Assembly.Resolution
import ScriptEngine.Proofs.Assembly.Partition
import ScriptEngine.Proofs.ArrayElements
import ScriptEngine.Proofs.Number.Range
import ScriptEngine.Proofs.Text.Trimming
import ScriptEngine.Proofs.Number.Literals
import ScriptEngine.Proofs.Number.Numerals
import ScriptEngine.Proofs.Reparsing
import ScriptEngine.Proofs.Joining
import ScriptEngine.Proofs.ScopeStack
import ScriptEngine.Proofs.BitOperators
import ScriptEngine.Proofs.Viewing
import ScriptEngine.Proofs.CommandLines
import ScriptEngine.Proofs.Assembly.Identity
