import ScriptToShell.Build.Compile
import ScriptToShell.Build.Failure
import ScriptToShell.Build.Order
import ScriptToShell.Build.Project
import ScriptToShell.Command.Argument
import ScriptToShell.Command.Line
import ScriptToShell.Command.Run
import ScriptToShell.Emit.Expression
import ScriptToShell.Emit.Fault
import ScriptToShell.Emit.Nesting
import ScriptToShell.Emit.Script
import ScriptToShell.Emit.Source
import ScriptToShell.Emit.Statement
import ScriptToShell.Grammar.Body
import ScriptToShell.Grammar.Control
import ScriptToShell.Grammar.Declaration
import ScriptToShell.Grammar.Destructuring
import ScriptToShell.Grammar.Expression
import ScriptToShell.Grammar.Markup
import ScriptToShell.Grammar.Member
import ScriptToShell.Grammar.Module
import ScriptToShell.Grammar.Operand
import ScriptToShell.Grammar.Primary
import ScriptToShell.Grammar.Program
import ScriptToShell.Grammar.Readers
import ScriptToShell.Grammar.Sequence
import ScriptToShell.Grammar.Statement
import ScriptToShell.Main
import ScriptToShell.Path.Basic
import ScriptToShell.Path.Layout
import ScriptToShell.Scan.Character
import ScriptToShell.Scan.Cursor
import ScriptToShell.Scan.Name
import ScriptToShell.Scan.Number
import ScriptToShell.Scan.Quoted
import ScriptToShell.Scan.Semicolon
import ScriptToShell.Scan.Trivia
import ScriptToShell.Shell.Layout
import ScriptToShell.Shell.Quote
import ScriptToShell.Shell.Target
import ScriptToShell.Source.Map
import ScriptToShell.Source.Span
import ScriptToShell.Store.Basic
import ScriptToShell.Store.Disk
import ScriptToShell.Store.Tree
import ScriptToShell.Store.Volume
import ScriptToShell.Text.Blank
import ScriptToShell.Text.Escaped
import ScriptToShell.Text.Lines
import ScriptToShell.Text.Outline
import ScriptToShell.Text.Visible
import ScriptToShell.Tree.Basic
import ScriptToShell.Tree.Imports
import ScriptToShell.Tree.Kind
import ScriptToShell.Tree.Numeral
import ScriptToShell.Tree.Operator
import ScriptToShell.Tree.Outline
import ScriptToShell.Tree.Strip
import ScriptToShell.Proofs.ModuleOrder
import ScriptToShell.Proofs.Emission
import ScriptToShell.Proofs.Expression
import ScriptToShell.Proofs.CommandList
import ScriptToShell.Proofs.Fragment
import ScriptToShell.Proofs.Condition
import ScriptToShell.Proofs.Phrase
import ScriptToShell.Proofs.ClosedWord
import ScriptToShell.Proofs.Line
import ScriptToShell.Proofs.Block
import ScriptToShell.Proofs.Plain
import ScriptToShell.Proofs.BlockStructure
import ScriptToShell.Proofs.Splice
import ScriptToShell.Proofs.StoreRuns
import ScriptToShell.Proofs.TreeGrowth
import ScriptToShell.Proofs.Inline
import ScriptToShell.Proofs.ProjectBuild
import ScriptToShell.Proofs.VolumeGrowth
import ScriptToShell.Proofs.Leftovers
import ScriptToShell.Proofs.Parallel
import ScriptToShell.Proofs.Spans
import ScriptToShell.Proofs.Indentation
import ScriptToShell.Proofs.Trail
import ScriptToShell.Proofs.PathBytes
import ScriptToShell.Proofs.OutputPath
import ScriptToShell.Proofs.TreeWalk
import ScriptToShell.Proofs.ScriptPlaces
import ScriptToShell.Proofs.WrittenScripts
import ScriptToShell.Proofs.FileByFile
import ScriptToShell.Proofs.Culprit
import ScriptToShell.Proofs.Twins
import ScriptToShell.Proofs.ServedImport
import ScriptToShell.Proofs.Place
import ScriptToShell.Proofs.Tandem
import ScriptToShell.Proofs.ReadNode
import ScriptToShell.Proofs.ReadExpression
import ScriptToShell.Proofs.ReadStatement
import ScriptToShell.Proofs.ProgramPlaces
import ScriptToShell.Proofs.InterpreterLine
import ScriptToShell.Proofs.Printing
import ScriptToShell.Proofs.RoundTrip
import ScriptToShell.Proofs.SwitchArms
import ScriptToShell.Proofs.Spelling
import ScriptToShell.Proofs.NamesInText
import ScriptToShell.Proofs.ExpressionNames
import ScriptToShell.Proofs.LineNames
import ScriptToShell.Proofs.ScriptNames
import ScriptToShell.Proofs.OneList
import ScriptToShell.Proofs.Parameters
import ScriptToShell.Proofs.StoredTruth
import ScriptToShell.Proofs.Surroundings
import ScriptToShell.Proofs.Paragraphs
import ScriptToShell.Proofs.Grouping
import ScriptToShell.Proofs.WordsInLines
import ScriptToShell.Proofs.Operands
import ScriptToShell.Proofs.OperandWords
import ScriptToShell.Proofs.LineLookup
import ScriptToShell.Proofs.Diagnostic
import ScriptToShell.Proofs.Escapes
import ScriptToShell.Proofs.Surrogates
import ScriptToShell.Proofs.IntegerTruth
