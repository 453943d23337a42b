import Awk.Assoc
import Awk.CommandLine
import Awk.Escape
import Awk.Evaluation
import Awk.Fault
import Awk.Fields
import Awk.Files
import Awk.Invoke
import Awk.Limits
import Awk.Machine.Basic
import Awk.Machine.Builtins
import Awk.Machine.Expr
import Awk.Machine.MainInput
import Awk.Machine.Operand
import Awk.Machine.Random
import Awk.Machine.Run
import Awk.Machine.Stmt
import Awk.Machine.Store
import Awk.Machine.Variables
import Awk.Number.Basic
import Awk.Number.Bits
import Awk.Number.Decimal
import Awk.Number.Elementary
import Awk.NumericText
import Awk.Printf.Basic
import Awk.Printf.Directive
import Awk.Printf.Layout
import Awk.Reader
import Awk.Record
import Awk.Regex.Compile
import Awk.Regex.Ere
import Awk.Regex.Pattern
import Awk.Regex.Reading
import Awk.Run
import Awk.Shell.Arithmetic
import Awk.Shell.Basic
import Awk.Shell.Command
import Awk.Shell.Session
import Awk.Shell.Utilities
import Awk.Shell.Word
import Awk.Substitute
import Awk.Syntax.Builtin
import Awk.Syntax.Cursor
import Awk.Syntax.Lexeme
import Awk.Syntax.Operator
import Awk.Syntax.Outline
import Awk.Syntax.Parser.Expr
import Awk.Syntax.Parser.Program
import Awk.Syntax.Parser.State
import Awk.Syntax.Parser.Stmt
import Awk.Syntax.Parts
import Awk.Syntax.Prune
import Awk.Syntax.SyntaxError
import Awk.Syntax.Token
import Awk.Syntax.Tree
import Awk.Text
import Awk.Unicode.Basic
import Awk.Unicode.Case
import Awk.Unicode.CaseTables
import Awk.Unicode.Digits
import Awk.Unicode.Letters
import Awk.Value.Arith
import Awk.Value.Basic
import Awk.World.Basic
import Awk.World.Close
import Awk.World.Input
import Awk.World.Output
import Awk.Main
import Awk.Proofs.Action
import Awk.Proofs.Calm
import Awk.Proofs.Closing
import Awk.Proofs.Counting
import Awk.Proofs.Input.Streams
import Awk.Proofs.Input.Apart
import Awk.Proofs.Input.Interleaving
import Awk.Proofs.Machine.Bindings
import Awk.Proofs.Machine.Course
import Awk.Proofs.Machine.Expr
import Awk.Proofs.Machine.Invariant
import Awk.Proofs.Machine.Kinds
import Awk.Proofs.Machine.Passing
import Awk.Proofs.Machine.Lengths
import Awk.Proofs.Machine.Path
import Awk.Proofs.Machine.Run
import Awk.Proofs.Machine.Sound
import Awk.Proofs.Machine.Stmt
import Awk.Proofs.Machine.Walk
import Awk.Proofs.MainInput.Plain
import Awk.Proofs.MainInput.Turns
import Awk.Proofs.MainInput.Order
import Awk.Proofs.MainInput.Records
import Awk.Proofs.MainInput.Run
import Awk.Proofs.Outcome
import Awk.Proofs.Output.Events
import Awk.Proofs.Output.Content
import Awk.Proofs.Output.Trace
import Awk.Proofs.Output.Run
import Awk.Proofs.Reader.Buffering
import Awk.Proofs.Reader.Cutting
import Awk.Proofs.Reader.Delivery
import Awk.Proofs.Reader.Fetching
import Awk.Proofs.Reader.Gathered
import Awk.Proofs.Reader.Separators
import Awk.Proofs.Record.Eager
import Awk.Proofs.Record.Rebuilt
import Awk.Proofs.Regex.Alike
import Awk.Proofs.Regex.Spans
import Awk.Proofs.Regex.Successive
import Awk.Proofs.Regex.Language
import Awk.Proofs.Regex.Grammar
import Awk.Proofs.Regex.Sets
import Awk.Proofs.Regex.Brackets
import Awk.Proofs.Regex.Translation
import Awk.Proofs.Regex.Compilation
import Awk.Proofs.Regex.Enclosed
import Awk.Proofs.Regex.Slashes
import Awk.Proofs.Regex.Outside
import Awk.Proofs.Regex.Dialect
import Awk.Proofs.Regex.Continued
import Awk.Proofs.Regex.Complete
import Awk.Proofs.Regex.OpenGroups
import Awk.Proofs.Syntax.Confined
import Awk.Proofs.Syntax.Dispatch
import Awk.Proofs.Syntax.Grammar.Expr
import Awk.Proofs.Syntax.Grammar.Program
import Awk.Proofs.Syntax.Grammar.Stmt
import Awk.Proofs.Syntax.Node
import Awk.Proofs.Syntax.Operands
import Awk.Proofs.Syntax.Parser.Expr
import Awk.Proofs.Syntax.Parser.Program
import Awk.Proofs.Syntax.Parser.State
import Awk.Proofs.Syntax.Parser.Stmt
import Awk.Proofs.Syntax.Parts
import Awk.Proofs.Syntax.Precedence
import Awk.Proofs.Syntax.PrintContext
import Awk.Proofs.Syntax.PrintList.Retracing
import Awk.Proofs.Syntax.PrintList.Expr
import Awk.Proofs.Syntax.PrintList.Parenthesised
import Awk.Proofs.Syntax.ReadBack
import Awk.Proofs.Syntax.Rendering.Source
import Awk.Proofs.Syntax.Spelling
import Awk.Proofs.Syntax.WellFormed
import Awk.Proofs.StreamTable
import Awk.Proofs.World
import Awk.Proofs.Syntax.Layout.Ahead
import Awk.Proofs.Syntax.Layout.Insertion
import Awk.Proofs.Syntax.Layout.Joining
import Awk.Proofs.Syntax.Places.Delimited
import Awk.Proofs.Syntax.Places.Written
import Awk.Proofs.Syntax.Places.Tiling
import Awk.Proofs.Syntax.Places.LineEnds
import Awk.Proofs.Substitution.Replacement
import Awk.Proofs.Substitution.Matches
import Awk.Proofs.Fields.Joining
import Awk.Proofs.Fields.Single
import Awk.Proofs.Fields.Lines
import Awk.Proofs.Fields.Paragraphs
import Awk.Proofs.Regex.Branches
import Awk.Proofs.Numerals.Longest
import Awk.Proofs.Numerals.Literals
import Awk.Proofs.Numerals.Folding
import Awk.Proofs.Escapes
import Awk.Proofs.Getline.MainInput
import Awk.Proofs.Getline.Changes
import Awk.Proofs.Printf.Pieces
import Awk.Proofs.Printf.Characters
import Awk.Proofs.Machine.Keys
import Awk.Proofs.Machine.Composed
import Awk.Proofs.Machine.Ranges
import Awk.Proofs.Machine.Visits
import Awk.Proofs.Arrays.History
import Awk.Proofs.Numbers.Whole
import Awk.Proofs.Substring
import Awk.Proofs.Arrays.Allocated
import Awk.Proofs.Arrays.Split
