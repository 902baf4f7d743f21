import JavaLex.Annotation
import JavaLex.Classifier
import JavaLex.Classifier.Basic
import JavaLex.Classifier.Verdict
import JavaLex.Config
import JavaLex.Diagnostic
import JavaLex.Fault
import JavaLex.Lexeme.Basic
import JavaLex.Lexeme.Decision
import JavaLex.Lexeme.Number
import JavaLex.Lexeme.Punctuation
import JavaLex.Lexeme.Quoted
import JavaLex.Lexeme.Tag
import JavaLex.Lexeme.Word
import JavaLex.Literal.Escape
import JavaLex.Literal.Numeral
import JavaLex.Literal.Problems
import JavaLex.Reserved
import JavaLex.Segment
import JavaLex.Source.Basic
import JavaLex.Source.Byte
import JavaLex.Source.Encoding
import JavaLex.Source.Lines
import JavaLex.Source.Search
import JavaLex.Statement
import JavaLex.Stream
import JavaLex.Text.Alphabetic
import JavaLex.Text.CharSet
import JavaLex.Text.CombiningMark
import JavaLex.Text.Invisible
import JavaLex.Text.Numeric
import JavaLex.Text.Quoted
import JavaLex.Text.Utf16
import JavaLex.Token.Basic
import JavaLex.Token.Kind
import JavaLex.Token.Tally
import JavaLex.Proofs.Boundary
import JavaLex.Proofs.Returns
import JavaLex.Proofs.Scanning
import JavaLex.Proofs.Segments
import JavaLex.Proofs.Verdicts
import JavaLex.Proofs.Pulling
import JavaLex.Proofs.Lossless
import JavaLex.Proofs.Agreement
import JavaLex.Proofs.Totality
import JavaLex.Proofs.ScanAgreement
import JavaLex.Proofs.SegmentAgreement
import JavaLex.Proofs.Shifting
import JavaLex.Proofs.Effects
import JavaLex.Proofs.Restart
import JavaLex.Proofs.Scopes
import JavaLex.Proofs.Ternary
import JavaLex.Proofs.Resynchronise
import JavaLex.Proofs.LineJoin
import JavaLex.Proofs.Diagnosing
import JavaLex.Proofs.Events
import JavaLex.Proofs.LookingAhead
import JavaLex.Proofs.Labels
import JavaLex.Proofs.Kinds
import JavaLex.Proofs.Grouping
import JavaLex.Proofs.Levels
import JavaLex.Proofs.Merging
import JavaLex.Proofs.Relative
import JavaLex.Proofs.Characters
import JavaLex.Proofs.Trivia
import JavaLex.Proofs.Spelling
import JavaLex.Proofs.Limits
import JavaLex.Proofs.Folding
import JavaLex.Proofs.Delimiters
import JavaLex.Proofs.Unterminated
import JavaLex.Proofs.NumeralGrammar
import JavaLex.Proofs.Numerals
import JavaLex.Proofs.Quoting
import JavaLex.Proofs.Surrogates
import JavaLex.Proofs.EscapeGrammar
import JavaLex.Proofs.EscapeValues
import JavaLex.Proofs.EscapeProblems
import JavaLex.Proofs.EscapeEnds
import JavaLex.Proofs.FixedTexts
import JavaLex.Proofs.Comments
import JavaLex.Proofs.NumberExtent
import JavaLex.Proofs.Wildcards
import JavaLex.Proofs.Rescanning
import JavaLex.Proofs.CharLiterals
import JavaLex.Proofs.Blocks
import JavaLex.Proofs.LineIndex
import JavaLex.Proofs.Decoding
import JavaLex.Proofs.Contents
import JavaLex.Proofs.LineBreaks
import JavaLex.Proofs.Veiling
import JavaLex.Proofs.ZeroBytes
