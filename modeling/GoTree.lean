import GoTree.Main
import GoTree.Proofs.Mapping.Complete
import GoTree.Proofs.Mapping.Lossless
import GoTree.Proofs.Mapping.Spans
import GoTree.Tree.Query
import GoTree.Proofs.Mapping.Relaxed
import GoTree.Proofs.Mapping.Expected
import GoTree.Proofs.Text.Returns
import GoTree.Proofs.Token.Returns
import GoTree.Proofs.Grammar.Moved
import GoTree.Proofs.Grammar.MovedRules
import GoTree.Proofs.Mapping.Agree
import GoTree.Proofs.Mapping.Returns
import GoTree.Proofs.Grammar.Derivation
import GoTree.Proofs.Token.Semicolons
import GoTree.Proofs.Grammar.Steady
import GoTree.Proofs.Grammar.SteadyType
import GoTree.Proofs.Grammar.SteadyExpression
import GoTree.Proofs.Grammar.SteadyStatement
import GoTree.Proofs.Grammar.SteadyRun
import GoTree.Proofs.Grammar.Precedence
import GoTree.Proofs.Grammar.Procedure
import GoTree.Proofs.Grammar.Headers
import GoTree.Proofs.Grammar.Progress
import GoTree.Proofs.Syntax.Parts
import GoTree.Proofs.Grammar.Parts
import GoTree.Proofs.Grammar.WellFormed
import GoTree.Proofs.Grammar.Bounds
import GoTree.Proofs.Grammar.Diagnostics
import GoTree.Proofs.Grammar.Ellipsis
import GoTree.Proofs.Mapping.Subplans
import GoTree.Proofs.Mapping.Bounds
import GoTree.Proofs.Mapping.TokenTable
import GoTree.Proofs.Mapping.Cursor
import GoTree.Proofs.CommandLine.Schedule
import GoTree.Proofs.Text.Position
import GoTree.Proofs.Token.Scanner
import GoTree.Proofs.Token.LongestMatch
import GoTree.Proofs.Tree.Document
import GoTree.Proofs.Mapping.CommentTable
import GoTree.Proofs.Syntax.Census
import GoTree.Proofs.Mapping.TagCount
import GoTree.Proofs.Mapping.Tallies
import GoTree.Proofs.Mapping.Census
import GoTree.Proofs.Mapping.Operands
import GoTree.Proofs.Grammar.CommentGroups
import GoTree.Proofs.Tree.Dump
