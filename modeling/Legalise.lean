import Legalise.Exports.HonestExport
import Legalise.ExportChainVerifier.CrossCheck
import Legalise.ExportChainVerifier.TamperEvidence
import Legalise.Audit.NoFalseAlarm
import Legalise.AuditReconstruction.Pagination
import Legalise.AdviceBoundary.Timeline
import Legalise.Anonymisation.RedactionCoverage
import Legalise.Rendering.SafePage
import Legalise.Rendering.CompleteExport
import Legalise.Anonymisation.TokenStability
import Legalise.Anonymisation.Pipeline
import Legalise.Jobs.Finished
import Legalise.Capabilities.Standing
import Legalise.DependencyResolver.Cycles
import Legalise.Signing.Binding
import Legalise.GrantsLifecycle.Escalation
import Legalise.Modules.Admitted
import Legalise.Modules.LastAdmission
import Legalise.Modules.Failures
import Legalise.KeyRotation.Concurrent
import Legalise.MatterContext.CurrentValue
import Legalise.Jobs.Ceiling
import Legalise.Storage.FailClosed
import Legalise.Jobs.MatterDeletion
import Legalise.RateLimit.Isolation
import Legalise.Signoff.Binding
import Legalise.StateMachine.Path
import Legalise.Reviews.Decisions
import Legalise.ModelGateway.LocalServing
import Legalise.Invocations.PromptRuntime
import Legalise.Requests.Plain
import Legalise.ModelGateway.CallTrace
import Legalise.Invocations.Gates
import Legalise.Invocations.Refusals
import Legalise.Invocations.Waiting
import Legalise.Assistant.Context
import Legalise.Assistant.Turn
import Legalise.Lib.Cut
import Legalise.LawveImport.Frontmatter
import Legalise.DocumentRoutes.Assets
import Legalise.RetentionSweep.Basic
import Legalise.RetentionSweep.Isolation
import Legalise.RetentionSweep.Progress
import Legalise.DocumentEdit.Substitution
import Legalise.DocumentEdit.EditorText
import Legalise.Assistant.Stream
import Legalise.Lib.Framing
import Legalise.Python.JsonLine
import Legalise.JavaScript.Str
import Legalise.Assistant.StreamClient
import Legalise.Assistant.StreamDelivery
import Legalise.Assistant.SaveDraft
import Legalise.Matters.Routes
import Legalise.Matters.Tombstone
import Legalise.Matters.Frame
import Legalise.ExternalPack.Paused
import Legalise.ExternalPack.ReadOnly
import Legalise.GrantsLifecycle.SnapshotShape
import Legalise.RateLimit.Episodes
import Legalise.Anonymisation.RoundTrip
import Legalise.Lib.Breaks
import Legalise.Python.Search
import Legalise.Retrieval.Chunking
import Legalise.Retrieval.ChunkCover
import Legalise.Assistant.EnvelopeContent
import Legalise.Assistant.EnvelopeGrowth
import Legalise.Assistant.EnvelopeStreamer
import Legalise.Lib.Words
import Legalise.Python.Words
import Legalise.SourceAnchors.QuoteCheck
import Legalise.Lib.Aborting
import Legalise.Lib.Assign
import Legalise.Retrieval.Search
import Legalise.Retrieval.Degradation
import Legalise.KeyRotation.Batches
import Legalise.Chronology.Basic
import Legalise.Chronology.Dedup
import Legalise.Chronology.Undertaking
import Legalise.Python.JsonFault
import Legalise.Python.JsonGrammar
import Legalise.StructuredOutput.Envelope
import Legalise.Python.DateTime
import Legalise.AuditReconstruction.AnyCursor
import Legalise.Python.JsonOrder
import Legalise.ExternalPack.Normalise
import Legalise.ExternalPack.Malformed
import Legalise.ExternalPack.CurrentVersion
import Legalise.Lib.Related
import Legalise.ExternalPack.Grades
import Legalise.Lib.Plateau
import Legalise.DocumentEdit.EditorHtml
import Legalise.DocumentEdit.OpenAndSave
import Legalise.DocumentVersions.Closing
import Legalise.DocumentVersions.CurrentText
import Legalise.DocumentVersions.Restores
import Legalise.Lib.SerialLock
import Legalise.DocumentVersions.Concurrent
import Legalise.DocumentVersions.WorkingDrafts
import Legalise.Invocations.Anchors
import Legalise.Assistant.Waiting
