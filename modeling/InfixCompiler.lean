import InfixCompiler.Binary64
import InfixCompiler.Binary64.Nearest
import InfixCompiler.Binary64.Reader
import InfixCompiler.Binary64.Shortest
import InfixCompiler.Chunk
import InfixCompiler.Chunk.Encoding
import InfixCompiler.CommandLine
import InfixCompiler.Compilation
import InfixCompiler.Compilation.Log
import InfixCompiler.Diagnostic
import InfixCompiler.Excerpt
import InfixCompiler.Opcode
import InfixCompiler.Precedence
import InfixCompiler.Program
import InfixCompiler.Program.Parser
import InfixCompiler.Program.Session
import InfixCompiler.Source
import InfixCompiler.Span
import InfixCompiler.Text
import InfixCompiler.Text.Layout
import InfixCompiler.Text.Quoted
import InfixCompiler.Text.Unprinted
import InfixCompiler.Token
import InfixCompiler.Token.Kind
import InfixCompiler.Token.Lexer
import InfixCompiler.Tree
import InfixCompiler.Tree.Lowering
import InfixCompiler.Tree.Outline
import InfixCompiler.Main
import InfixCompiler.Proofs.Grammar
import InfixCompiler.Proofs.Grammar.Unambiguity
import InfixCompiler.Proofs.Reading
import InfixCompiler.Proofs.Reading.Outcome
import InfixCompiler.Proofs.Reading.Acceptance
import InfixCompiler.Proofs.Lexing
import InfixCompiler.Proofs.Lexing.Readings
import InfixCompiler.Proofs.Reading.Derivations
import InfixCompiler.Proofs.Reading.Locality
import InfixCompiler.Proofs.Reading.ViablePrefix
import InfixCompiler.Proofs.Reading.Parametricity
import InfixCompiler.Proofs.Reading.Depth
import InfixCompiler.Proofs.Reading.FirstEnd
import InfixCompiler.Proofs.StackMachine
import InfixCompiler.Proofs.StackMachine.Correctness
import InfixCompiler.Proofs.Lexing.Concatenation
import InfixCompiler.Proofs.Compilation
import InfixCompiler.Proofs.Compilation.Concatenation
import InfixCompiler.Proofs.Compilation.Unlowered
import InfixCompiler.Proofs.Compilation.Placement
import InfixCompiler.Proofs.Printing
import InfixCompiler.Proofs.Conservation
import InfixCompiler.Proofs.Encoding
import InfixCompiler.Proofs.Session
import InfixCompiler.Proofs.Session.Budget
import InfixCompiler.Proofs.Session.Position
import InfixCompiler.Proofs.Reading.Limit
import InfixCompiler.Proofs.Lexing.Failure
import InfixCompiler.Proofs.Lexing.Separation
import InfixCompiler.Proofs.Encoding.Records
import InfixCompiler.Proofs.Compilation.WellFormed
import InfixCompiler.Proofs.Reading.Cut
import InfixCompiler.Proofs.Compilation.Pointing
import InfixCompiler.Proofs.Encoding.Equality
import InfixCompiler.Proofs.StackMachine.Rereading
import InfixCompiler.Proofs.Text.Lines
import InfixCompiler.Proofs.Text.Utf8
import InfixCompiler.Proofs.Text.Positions
import InfixCompiler.Proofs.Text.TouchedLines
import InfixCompiler.Proofs.Text.Excerpts
import InfixCompiler.Proofs.Text.Rows
import InfixCompiler.Proofs.Text.Gutters
import InfixCompiler.Proofs.Numbers
import InfixCompiler.Proofs.Listing
import InfixCompiler.Proofs.Outline
import InfixCompiler.Proofs.Outline.Labels
import InfixCompiler.Proofs.Session.Trees
import InfixCompiler.Proofs.Text.Combination
import InfixCompiler.Proofs.Text.Hints
import InfixCompiler.Proofs.Compilation.Stages
import InfixCompiler.Proofs.Compilation.Progress
