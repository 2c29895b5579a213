import WordMachine.Assembly.Draft
import WordMachine.Assembly.Effect
import WordMachine.Assembly.Error
import WordMachine.Assembly.Journal
import WordMachine.Assembly.Macro
import WordMachine.Assembly.Pass
import WordMachine.Assembly.Program
import WordMachine.Assembly.Statement
import WordMachine.Assembly.Symbol
import WordMachine.CommandLine.Command
import WordMachine.CommandLine.Folder
import WordMachine.CommandLine.Path
import WordMachine.CommandLine.Rendering
import WordMachine.CommandLine.Request
import WordMachine.CommandLine.Session
import WordMachine.Console
import WordMachine.Console.Buffered
import WordMachine.Console.Stream
import WordMachine.Disassembly
import WordMachine.Flag
import WordMachine.Image
import WordMachine.Image.Sink
import WordMachine.Instruction
import WordMachine.Machine
import WordMachine.Machine.Cycle
import WordMachine.Machine.Demand
import WordMachine.Machine.Execution
import WordMachine.Machine.Run
import WordMachine.Main
import WordMachine.Memory
import WordMachine.Notice
import WordMachine.Opcode
import WordMachine.Port
import WordMachine.Port.Bank
import WordMachine.Proofs.Assembly.Alike
import WordMachine.Proofs.Assembly.Appending
import WordMachine.Proofs.Assembly.Bounds
import WordMachine.Proofs.Assembly.Definitions
import WordMachine.Proofs.Assembly.Depth
import WordMachine.Proofs.Assembly.Effects
import WordMachine.Proofs.Assembly.Extent
import WordMachine.Proofs.Assembly.Failures
import WordMachine.Proofs.Assembly.Fields
import WordMachine.Proofs.Assembly.Inlining
import WordMachine.Proofs.Assembly.Layout
import WordMachine.Proofs.Assembly.Locations
import WordMachine.Proofs.Assembly.Lockstep
import WordMachine.Proofs.Assembly.Names
import WordMachine.Proofs.Assembly.Operands
import WordMachine.Proofs.Assembly.Reassembly
import WordMachine.Proofs.Assembly.Recast
import WordMachine.Proofs.Assembly.Records
import WordMachine.Proofs.Assembly.Renamed
import WordMachine.Proofs.Assembly.Renaming
import WordMachine.Proofs.Assembly.Replay
import WordMachine.Proofs.Assembly.Resolution
import WordMachine.Proofs.Assembly.Saving
import WordMachine.Proofs.Assembly.Space
import WordMachine.Proofs.Assembly.Spacing
import WordMachine.Proofs.Assembly.Stores
import WordMachine.Proofs.Assembly.Strict
import WordMachine.Proofs.Assembly.Trace
import WordMachine.Proofs.Assembly.Visits
import WordMachine.Proofs.CommandLine.Folders
import WordMachine.Proofs.CommandLine.Invocation
import WordMachine.Proofs.CommandLine.Orders
import WordMachine.Proofs.CommandLine.Requests
import WordMachine.Proofs.CommandLine.Sessions
import WordMachine.Proofs.Image.RoundTrip
import WordMachine.Proofs.Image.Sinks
import WordMachine.Proofs.Machine.Accounts
import WordMachine.Proofs.Machine.Additions
import WordMachine.Proofs.Machine.Agreement
import WordMachine.Proofs.Machine.Blocks
import WordMachine.Proofs.Machine.Course
import WordMachine.Proofs.Machine.Cycles
import WordMachine.Proofs.Machine.Disassembly
import WordMachine.Proofs.Machine.Faults
import WordMachine.Proofs.Machine.Hidden
import WordMachine.Proofs.Machine.Histories
import WordMachine.Proofs.Machine.Interruptions
import WordMachine.Proofs.Machine.Isolation
import WordMachine.Proofs.Machine.Locality
import WordMachine.Proofs.Machine.Numeric
import WordMachine.Proofs.Machine.Refinement
import WordMachine.Proofs.Machine.Rest
import WordMachine.Proofs.Machine.Twins
import WordMachine.Proofs.Text.Numerals
import WordMachine.Proofs.Text.Octets
import WordMachine.Proofs.Text.Readers
import WordMachine.Proofs.Text.Splitting
import WordMachine.Proofs.Word.Numeric
import WordMachine.Proofs.Word.Shifts
import WordMachine.Text.Column
import WordMachine.Text.Numeral
import WordMachine.Text.Octets
import WordMachine.Text.Quoted
import WordMachine.Word
