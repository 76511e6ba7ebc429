import SearchFilter.ItemForm
import SearchFilter.JsonReader
import SearchFilter.SearchQuery
import SearchFilter.SearchResponse
import SearchFilter.Proofs.LexemeHead
import SearchFilter.Proofs.WordReading
import SearchFilter.Proofs.Spelling
import SearchFilter.Proofs.Grammar
import SearchFilter.Proofs.Language
import SearchFilter.Proofs.Chain
import SearchFilter.Proofs.DecimalNumber
import SearchFilter.Proofs.Emission
import SearchFilter.Proofs.FilterWords
import SearchFilter.Proofs.OutputReading
import SearchFilter.Proofs.OutputRejection
import SearchFilter.Proofs.Joining
import SearchFilter.Proofs.Meaning
import SearchFilter.Proofs.CalendarOrder
import SearchFilter.Proofs.RealDate
import SearchFilter.Proofs.CalendarPeriod
import SearchFilter.Proofs.EpochSize
import SearchFilter.Proofs.JoinedFilter
import SearchFilter.Proofs.BareDate
import SearchFilter.Proofs.Draft
import SearchFilter.Proofs.DraftReading
import SearchFilter.Proofs.EntryPoints
import SearchFilter.Proofs.DocumentedFailures
import SearchFilter.Proofs.RequestRuns
import SearchFilter.Proofs.WaitingComparator
import SearchFilter.Proofs.ScanCut
import SearchFilter.Proofs.ErrorPlace
import SearchFilter.Proofs.DatePlace
import SearchFilter.Proofs.TokenSequence
import SearchFilter.Proofs.ImpossibleDate
import SearchFilter.Proofs.EpochRounding
import SearchFilter.Proofs.Relocation
import SearchFilter.Proofs.Respacing
import SearchFilter.Proofs.SplitDate
import SearchFilter.Proofs.JsonText
import SearchFilter.Proofs.RequestRoundTrip
import SearchFilter.Proofs.ReferenceTime
import SearchFilter.Proofs.InOrder
import SearchFilter.Proofs.CheckedKinds
import SearchFilter.Proofs.FieldwiseChecks
import SearchFilter.Proofs.SameDigits
import SearchFilter.Proofs.DigitValues
import SearchFilter.Proofs.CalendarTiling
import SearchFilter.Proofs.JournalTrail
import SearchFilter.Proofs.QuotedText
import SearchFilter.Proofs.FaithfulMessages
import SearchFilter.Proofs.WordAlternatives
