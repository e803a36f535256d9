import Wiremux.MessagesFrames
import Wiremux.OrderedMap
import Wiremux.StreamEncoderPush
import Wiremux.ToolRouting
import Wiremux.MessagesBlocks
import Wiremux.MessagesGrammar
import Wiremux.MessagesCalls
import Wiremux.ResponsesFrames
import Wiremux.ResponsesGrammar
import Wiremux.ResponsesCalls
import Wiremux.ChatCalls
import Wiremux.ChatComplete
import Wiremux.ConverseComplete
import Wiremux.StopSignals
import Wiremux.StopReasons
import Wiremux.ChunkedReading
import Wiremux.SseReader
import Wiremux.StreamStops
import Wiremux.SseChunking
import Wiremux.EventStream
import Wiremux.EventStreamChunking
import Wiremux.UsageDecoding
import Wiremux.UsageRoundTrip
import Wiremux.Completion
import Wiremux.Upstream
import Wiremux.SameWire
import Wiremux.GateSteps
import Wiremux.GateEnds
import Wiremux.GateTransparency
import Wiremux.FrameDecoding
import Wiremux.MessagesDecoding
import Wiremux.ChatDecoding
import Wiremux.ResponsesDecoding
import Wiremux.ConverseDecoding
import Wiremux.GeminiDecoding
import Wiremux.StreamDecoding
import Wiremux.TerminalEvents
import Wiremux.WireEnds
import Wiremux.FrameEnds
import Wiremux.TerminalAgreement
import Wiremux.ToolAssembly
import Wiremux.StreamMapping
import Wiremux.ClosingFrames
import Wiremux.MappedEnds
import Wiremux.EventStreamWriting
import Wiremux.EventStreamHeaders
import Wiremux.EventStreamRoundTrip
import Wiremux.CredentialPointers
import Wiremux.CredentialWriteback
import Wiremux.CredentialStore
import Wiremux.SerialUpdates
import Wiremux.CredentialRuns
import Wiremux.CallSlots
import Wiremux.ChatCompleteDecoding
import Wiremux.UnaryCalls
import Wiremux.SystemText
import Wiremux.SystemTextKept
import Wiremux.ToolNames
import Wiremux.CredentialLens
import Wiremux.GuardedRuns
import Wiremux.StaleMarks
import Wiremux.CloudTokens
import Wiremux.CloudInvariant
import Wiremux.CloudLeader
import Wiremux.CloudRuns
import Wiremux.ProfileTokens
import Wiremux.ProfileInvariant
import Wiremux.ProfileLeader
import Wiremux.ProfileCells
import Wiremux.ProfileRuns
import Wiremux.RefreshTurns
import Wiremux.RefreshLog
import Wiremux.SharedStore
import Wiremux.SharedRefresh
import Wiremux.StoreReading
import Wiremux.StoreEntries
import Wiremux.StoreEntryRuns
import Wiremux.ToolArguments
import Wiremux.ToolUseIds
import Wiremux.RequestParts
import Wiremux.MessagesItems
import Wiremux.MessagesToolIds
import Wiremux.MessagesTurns
import Wiremux.CacheFloor
import Wiremux.GeminiContents
import Wiremux.GeminiMatching
import Wiremux.GeminiCallIds
import Wiremux.GeminiWalk
import Wiremux.GeminiResponses
import Wiremux.GeminiAnswers
import Wiremux.MessagesCache
import Wiremux.MessagesSampling
import Wiremux.MessagesThinking
import Wiremux.MessagesParts
import Wiremux.MessagesMarkers
import Wiremux.SystemPrefix
import Wiremux.TurnLists
import Wiremux.DocumentNames
import Wiremux.ConverseParts
import Wiremux.ConverseItems
import Wiremux.ConverseTurns
import Wiremux.GeminiItems
import Wiremux.RequestTurns
import Wiremux.PercentDecoding
import Wiremux.SplitText
import Wiremux.UrlOrigin
import Wiremux.EmbeddedUrls
import Wiremux.ShownUserinfo
import Wiremux.SanitizedErrors
import Wiremux.UserinfoHidden
import Wiremux.SseReadBack
import Wiremux.SseWrittenFrames
import Wiremux.SsePartialLines
import Wiremux.SseEndOfInput
import Wiremux.SsePending
import Wiremux.CheckedBytes
import Wiremux.EventStreamOffsets
import Wiremux.AssemblerSlots
import Wiremux.AssembledCalls
import Wiremux.ReusedIndexes
import Wiremux.CallNumbering
import Wiremux.GeminiStreams
import Wiremux.SchemaWalks
import Wiremux.StrictSchemas
import Wiremux.GeminiSchemas
import Wiremux.InlinedRefs
import Wiremux.NamespaceNames
import Wiremux.SentTools
import Wiremux.PercentEncoding
import Wiremux.UpstreamUrls
import Wiremux.ModelPaths
import Wiremux.CredentialCaches
import Wiremux.IniSections
import Wiremux.SharedProfiles
import Wiremux.CivilDates
import Wiremux.FixedDigits
import Wiremux.DateTexts
import Wiremux.CheckedDates
import Wiremux.RequestCredentials
import Wiremux.SigV4Signing
import Wiremux.SentRequests
import Wiremux.EndpointHosts
import Wiremux.EndpointPaths
import Wiremux.UpstreamEndpoints
import Wiremux.FileTree
import Wiremux.StagedCommit
import Wiremux.CatalogUrls
import Wiremux.CatalogProfiles
import Wiremux.ProfileIngest
import Wiremux.IngestAtomicity
import Wiremux.FormQueries
import Wiremux.AuthorizeUrls
import Wiremux.PkceCallbacks
import Wiremux.MessagesRequests
import Wiremux.ChoiceLosses
import Wiremux.ChoiceSwap
import Wiremux.RestoredChoice
import Wiremux.RelaxedRequests
import Wiremux.RestoredRequests
