import Cgimap.Changeset.Accounting
import Cgimap.Changeset.BoundingBoxes
import Cgimap.Changeset.ClosingRaces
import Cgimap.Changeset.ConcurrentCounters
import Cgimap.Changeset.ConcurrentHistories
import Cgimap.Changeset.ConcurrentUploads
import Cgimap.Changeset.InputFormat
import Cgimap.Changeset.Lifetime
import Cgimap.Changeset.OwnedRequests
import Cgimap.Changeset.PayloadSizes
import Cgimap.Changeset.Responders
import Cgimap.Changeset.RowEffects
import Cgimap.Changeset.Updater
import Cgimap.Http.Atomicity
import Cgimap.Http.Authorization
import Cgimap.Http.CommittedUpdates
import Cgimap.Http.EncodingChoice
import Cgimap.Http.ErrorDocuments
import Cgimap.Http.ErrorHeaders
import Cgimap.Http.HeaderLists
import Cgimap.Http.HiddenRedactions
import Cgimap.Http.IdLists
import Cgimap.Http.MediaTypeChoice
import Cgimap.Http.Negotiation
import Cgimap.Http.PayloadReading
import Cgimap.Http.ProcessRequest
import Cgimap.Http.QueryStrings
import Cgimap.Http.RateLimiter
import Cgimap.Http.Requests
import Cgimap.Http.RouteMatching
import Cgimap.Http.Routing
import Cgimap.Http.VersionEndpoints
import Cgimap.Http.Workflow
import Cgimap.Library.CountedLoop
import Cgimap.Library.DecidedOutcomes
import Cgimap.Library.EventLog
import Cgimap.Library.ExceptLists
import Cgimap.Library.GuardedReferences
import Cgimap.Library.HeaderBlock
import Cgimap.Library.Interleaving
import Cgimap.Library.JsonTree
import Cgimap.Library.KeyedTable
import Cgimap.Library.LeakyBucket
import Cgimap.Library.MarkupTree
import Cgimap.Library.Occurrences
import Cgimap.Library.OwnedRecords
import Cgimap.Library.SortedUnique
import Cgimap.Library.StatementProgram
import Cgimap.Library.StreamCoder
import Cgimap.Library.UnsupportedSets
import Cgimap.Library.Worklist
import Cgimap.Library.XmlText
import Cgimap.Model.Database
import Cgimap.Model.Types
import Cgimap.Model.Users
import Cgimap.Osmchange.Attributes
import Cgimap.Osmchange.BatchEquivalence
import Cgimap.Osmchange.BatchProgress
import Cgimap.Osmchange.Batching
import Cgimap.Osmchange.BoxReach
import Cgimap.Osmchange.CheckEffects
import Cgimap.Osmchange.CreateEffects
import Cgimap.Osmchange.DeletableSet
import Cgimap.Osmchange.DeleteEffects
import Cgimap.Osmchange.DeletionEffects
import Cgimap.Osmchange.DeletionProgress
import Cgimap.Osmchange.DiffResults
import Cgimap.Osmchange.DiffTracking
import Cgimap.Osmchange.DocumentRuns
import Cgimap.Osmchange.EditBoxes
import Cgimap.Osmchange.ElementCounts
import Cgimap.Osmchange.ElementTrace
import Cgimap.Osmchange.ForwardReferences
import Cgimap.Osmchange.Handler
import Cgimap.Osmchange.Integrity
import Cgimap.Osmchange.ModifyEffects
import Cgimap.Osmchange.ModifySchedules
import Cgimap.Osmchange.NumericFields
import Cgimap.Osmchange.ObjectState
import Cgimap.Osmchange.OptimisticLocking
import Cgimap.Osmchange.Outcomes
import Cgimap.Osmchange.OwnedUploads
import Cgimap.Osmchange.OwnedWrites
import Cgimap.Osmchange.Packages
import Cgimap.Osmchange.Placeholders
import Cgimap.Osmchange.ReadOnlyChecks
import Cgimap.Osmchange.ReferenceLocks
import Cgimap.Osmchange.RelationBoxes
import Cgimap.Osmchange.SoundDatabase
import Cgimap.Osmchange.SqlStatements
import Cgimap.Osmchange.UpdaterChecks
import Cgimap.Osmchange.UpdaterProcess
import Cgimap.Osmchange.UploadRecords
import Cgimap.Osmchange.VersionHistory
import Cgimap.Osmchange.WriteEffects
import Cgimap.Osmchange.WriteProgress
import Cgimap.Osmchange.WrittenContent
import Cgimap.Osmchange.XmlDocuments
import Cgimap.Osmchange.XmlParser
import Cgimap.Output.ChangesetDownloads
import Cgimap.Output.ContentCodings
import Cgimap.Output.CurrentDocuments
import Cgimap.Output.Documents
import Cgimap.Output.JsonFormatter
import Cgimap.Output.ResponseDocuments
import Cgimap.Output.XmlFormatter
import Cgimap.Read.AreaTiles
import Cgimap.Read.ArrayCodec
import Cgimap.Read.ArrayText
import Cgimap.Read.ConnectionStrings
import Cgimap.Read.DataSelection
import Cgimap.Read.Endpoints
import Cgimap.Read.Extraction
import Cgimap.Read.MapQuery
import Cgimap.Read.MultiFetch
import Cgimap.Read.OpenStatus
import Cgimap.Read.ParseTime
import Cgimap.Read.Readback
import Cgimap.Read.Redaction
