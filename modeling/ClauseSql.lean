import ClauseSql.CommandLine
import ClauseSql.Main
import ClauseSql.Token.Cursor
import ClauseSql.Proofs.Likeness
import ClauseSql.Proofs.ParserExactness
import ClauseSql.Proofs.StoredLikeness
import ClauseSql.Proofs.Erasure
import ClauseSql.Proofs.TypingRules
import ClauseSql.Proofs.LiteralIndependence
import ClauseSql.Proofs.LiteralValues
import ClauseSql.Proofs.WellTyped
import ClauseSql.Proofs.TypingExactness
import ClauseSql.Proofs.ClauseTyping
import ClauseSql.Proofs.SqlForms
import ClauseSql.Proofs.ScalarReading
import ClauseSql.Proofs.Brackets
import ClauseSql.Proofs.ConditionReading
import ClauseSql.Proofs.Unambiguity
import ClauseSql.Proofs.LiteralPatterns
import ClauseSql.Proofs.Inlining
import ClauseSql.Proofs.ArgumentOrder
import ClauseSql.Proofs.Meaning
import ClauseSql.Proofs.SqlMeaning
import ClauseSql.Proofs.Sizes
import ClauseSql.Proofs.TreeReading
import ClauseSql.Proofs.Readability
import ClauseSql.Proofs.LexErrors
import ClauseSql.Proofs.Safety
import ClauseSql.Proofs.Refusals
import ClauseSql.Proofs.Isolation
import ClauseSql.Proofs.PostOrder
import ClauseSql.Proofs.RoundTrip
import ClauseSql.Proofs.JoinedClauses
import ClauseSql.Proofs.PrintedClauses
import ClauseSql.Proofs.PoolHistory
import ClauseSql.Proofs.Recycling
import ClauseSql.Proofs.Keywords
import ClauseSql.Proofs.Spelling
import ClauseSql.Proofs.Tiling
import ClauseSql.Proofs.Separation
import ClauseSql.Proofs.UserStrings
import ClauseSql.Proofs.Lookahead
import ClauseSql.Proofs.ListClauses
import ClauseSql.Proofs.RecasedText
import ClauseSql.Proofs.RecasedTokens
import ClauseSql.Proofs.LetterCase
import ClauseSql.Proofs.ParserCalls
import ClauseSql.Proofs.StoredParts
import ClauseSql.Proofs.ModelShapes
import ClauseSql.Proofs.HeightLimits
import ClauseSql.Proofs.ReferencedProperties
import ClauseSql.Proofs.NullArguments
import ClauseSql.Proofs.ColumnNames
import ClauseSql.Proofs.EntityJson
import ClauseSql.Proofs.ComparisonSymmetry
import ClauseSql.Proofs.NumberLiterals
import ClauseSql.Proofs.CalendarText
import ClauseSql.Proofs.BracketPatterns
import ClauseSql.Proofs.LeadingPoints
import ClauseSql.Proofs.DoubleRange
import ClauseSql.Proofs.LiteralMagnitudes
import ClauseSql.Proofs.BoundNumbers
import ClauseSql.Proofs.PrintedArguments
import ClauseSql.Proofs.TemplateCuts
import ClauseSql.Proofs.ParserFaults
import ClauseSql.Proofs.SyntaxErrors
import ClauseSql.Proofs.PackedBytes
import ClauseSql.Proofs.Building
