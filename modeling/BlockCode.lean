import BlockCode.Json.Write
import BlockCode.Main
import BlockCode.Service
import BlockCode.Proofs.Grammar
import BlockCode.Proofs.Grammar.Nearest
import BlockCode.Proofs.Grammar.Unambiguous
import BlockCode.Proofs.Grammar.Numbered
import BlockCode.Proofs.Attempt
import BlockCode.Proofs.Parse.Soundness
import BlockCode.Proofs.Parse.Completeness
import BlockCode.Proofs.Parse
import BlockCode.Proofs.Scope.Occurrence
import BlockCode.Proofs.Scope.Resolve
import BlockCode.Proofs.Instruction.Layout
import BlockCode.Proofs.Machine.Walk
import BlockCode.Proofs.Machine.Truncation
import BlockCode.Proofs.Compilation
import BlockCode.Proofs.Simulation.Step
import BlockCode.Proofs.Simulation
import BlockCode.Proofs.Instruction.Height
import BlockCode.Proofs.Safety
import BlockCode.Proofs.Token.Cover
import BlockCode.Proofs.Grammar.Production
import BlockCode.Proofs.Parse.Reading
import BlockCode.Proofs.Grammar.Relabel
import BlockCode.Proofs.Parse.Impossible
import BlockCode.Proofs.Parse.Overlong
import BlockCode.Proofs.Totality
import BlockCode.Proofs.Scope.Session
import BlockCode.Proofs.Parse.Moved
import BlockCode.Proofs.Placement
import BlockCode.Proofs.Token.Concat
import BlockCode.Proofs.Parse.Concat
import BlockCode.Proofs.Concatenation
import BlockCode.Proofs.Scope.Offence
import BlockCode.Proofs.Diagnostic
import BlockCode.Proofs.Grammar.Within
import BlockCode.Proofs.Instruction.Assembly
import BlockCode.Proofs.Instruction.History
import BlockCode.Proofs.Instruction.Segment
import BlockCode.Proofs.Scope.First
import BlockCode.Proofs.Instruction.Level
import BlockCode.Proofs.Frame
import BlockCode.Proofs.Simulation.Cost
import BlockCode.Proofs.LoopFree
import BlockCode.Proofs.Parse.Sourced
import BlockCode.Proofs.Parse.Numbering
import BlockCode.Proofs.Table
import BlockCode.Proofs.Table.Rebuild
import BlockCode.Proofs.Token.Lexeme
import BlockCode.Proofs.Token.Spaced
import BlockCode.Proofs.Token.Stray
import BlockCode.Proofs.Instruction.Listing
import BlockCode.Proofs.Listing
import BlockCode.Proofs.Outline
import BlockCode.Proofs.Outline.Unambiguous
import BlockCode.Proofs.Renaming
import BlockCode.Proofs.CallDepth
import BlockCode.Proofs.Command.Arguments
import BlockCode.Proofs.Command
import BlockCode.Proofs.Service
import BlockCode.Proofs.LineEnd
import BlockCode.Proofs.Machine.Division
import BlockCode.Proofs.Machine.Memory
import BlockCode.Proofs.Parse.Span
