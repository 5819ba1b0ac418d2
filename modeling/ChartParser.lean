import ChartParser.Main
import ChartParser.Proofs.Binary64.Monotone
import ChartParser.Proofs.Binary64.UnitInterval
import ChartParser.Proofs.Chart.Preference
import ChartParser.Proofs.Chart.Table
import ChartParser.Proofs.Grammar.Index
import ChartParser.Proofs.Chart.Cell
import ChartParser.Proofs.Chart.Fixpoint
import ChartParser.Proofs.Chart.Content
import ChartParser.Proofs.Chart.Best
import ChartParser.Proofs.Grammar.Trees
import ChartParser.Proofs.Parse.Extraction
import ChartParser.Proofs.Parse.Completeness
import ChartParser.Proofs.Parse.Optimality
import ChartParser.Proofs.Grammar.Faultless
import ChartParser.Proofs.Parse.RuleOrder
import ChartParser.Proofs.Binary64.Exact
import ChartParser.Proofs.Binary64.Numeral
import ChartParser.Proofs.Binary64.ReadBack
import ChartParser.Proofs.GrammarText.Lexeme
import ChartParser.Proofs.GrammarText.Line
import ChartParser.Proofs.GrammarText.Document
import ChartParser.Proofs.GrammarText.Names
import ChartParser.Proofs.GrammarText.RoundTrip
import ChartParser.Proofs.Treebank.Atoms
import ChartParser.Proofs.Counts.Trained
import ChartParser.Proofs.Counts.Productions
import ChartParser.Proofs.Tree.Annotation
import ChartParser.Proofs.Counts.Coverage
import ChartParser.Proofs.Counts.ParentLabels
import ChartParser.Proofs.Tree.Placement
import ChartParser.Proofs.Treebank.Token
import ChartParser.Proofs.Treebank.Reader
import ChartParser.Proofs.Text.Collapse
import ChartParser.Proofs.Tree.Printer
import ChartParser.Proofs.Treebank.RoundTrip
import ChartParser.Proofs.Counts.Constituents
import ChartParser.Proofs.Counts.Exactness
import ChartParser.Proofs.Counts.StrippedLabels
import ChartParser.Proofs.Batch.Alignment
import ChartParser.Proofs.Binary64.RoundingError
import ChartParser.Proofs.Parse.ExactProduct
import ChartParser.Proofs.Parse.Canonical
import ChartParser.Proofs.Chart.Slices
import ChartParser.Proofs.Parse.Slices
import ChartParser.Proofs.CommandLine.Arguments
import ChartParser.Proofs.CommandLine.Run
import ChartParser.Proofs.Text.Words
import ChartParser.Proofs.Grammar.Refusal
import ChartParser.Proofs.Binary64.Quotient
import ChartParser.Proofs.Counts.Frequencies
import ChartParser.Proofs.GrammarText.Syntax
import ChartParser.Proofs.GrammarText.Acceptance
import ChartParser.Proofs.Batch.Tokenized
import ChartParser.Proofs.Batch.Diagnostics
import ChartParser.Proofs.GrammarText.Parts
import ChartParser.Proofs.GrammarText.Escaping
