import DocSearch.Main
import DocSearch.Query.Agreement
import DocSearch.Query.Filters
import DocSearch.Proofs.Fields
import DocSearch.Proofs.Document
import DocSearch.Proofs.Groups
import DocSearch.Proofs.Members
import DocSearch.Proofs.QueryMeaning
import DocSearch.Proofs.QueryShape
import DocSearch.Proofs.CallOutcome
import DocSearch.Proofs.Requests
import DocSearch.Proofs.Runs
import DocSearch.Proofs.Isolation
import DocSearch.Proofs.SentRequests
import DocSearch.Proofs.Explained
import DocSearch.Proofs.PageNumbers
import DocSearch.Proofs.Listing
import DocSearch.Proofs.Descriptions
import DocSearch.Proofs.Writes
import DocSearch.Proofs.Audit
import DocSearch.Proofs.ScopeEnds
import DocSearch.Proofs.TextReading
import DocSearch.Proofs.ValueShape
import DocSearch.Proofs.ValueReading
import DocSearch.Proofs.ByteOrder
import DocSearch.Proofs.LogLines
import DocSearch.Proofs.RequestTexts
import DocSearch.Proofs.OrderedValues
import DocSearch.Proofs.OrderedRequests
import DocSearch.Proofs.ExplainedText
import DocSearch.Proofs.Faults
import DocSearch.Proofs.PrioritySplit
import DocSearch.Proofs.FilterCalls
import DocSearch.Proofs.Assembly
import DocSearch.Proofs.Targets
import DocSearch.Proofs.Changes
import DocSearch.Proofs.Setting
import DocSearch.Proofs.KeyOrder
import DocSearch.Proofs.InnerPaths
import DocSearch.Proofs.Wildcards
import DocSearch.Proofs.Trimming
import DocSearch.Proofs.FieldLists
import DocSearch.Proofs.Redeclared
import DocSearch.Proofs.Decoding
import DocSearch.Proofs.Windows
import DocSearch.Proofs.WriteAnswers
import DocSearch.Proofs.CreatedDocument
import DocSearch.Proofs.Overlay
