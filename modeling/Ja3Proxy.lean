import Ja3Proxy.TransitionRuns
import Ja3Proxy.FiniteMaps
import Ja3Proxy.SafeIntegers
import Ja3Proxy.AsciiText
import Ja3Proxy.TransportErrors
import Ja3Proxy.AdmissionState
import Ja3Proxy.AdmissionInvariant
import Ja3Proxy.AdmissionWakeup
import Ja3Proxy.AdmissionFairness
import Ja3Proxy.ExceptRules
import Ja3Proxy.FrameReader
import Ja3Proxy.UploadChannel
import Ja3Proxy.UploadChunking
import Ja3Proxy.RequestRecord
import Ja3Proxy.RequestWorker
import Ja3Proxy.RequestRegistry
import Ja3Proxy.FairMutex
import Ja3Proxy.ContextDeath
import Ja3Proxy.ContextLifetime
import Ja3Proxy.ContextStore
import Ja3Proxy.JarLock
import Ja3Proxy.WordArithmetic
import Ja3Proxy.CookieModel
import Ja3Proxy.ManagedJar
import Ja3Proxy.AllowedOrigins
import Ja3Proxy.JarUpdates
import Ja3Proxy.JarPolicy
import Ja3Proxy.SdkResponse
import Ja3Proxy.SdkUpload
import Ja3Proxy.SnapshotImport
import Ja3Proxy.JarRoundTrip
import Ja3Proxy.CookieUpdates
import Ja3Proxy.ImportExactness
import Ja3Proxy.CookieSelection
import Ja3Proxy.CookieRevision
import Ja3Proxy.ContextService
import Ja3Proxy.OwnerIsolation
import Ja3Proxy.ContextHandlers
import Ja3Proxy.AddressPolicy
import Ja3Proxy.HeaderShaping
import Ja3Proxy.SdkErrors
import Ja3Proxy.SdkExchange
import Ja3Proxy.ResponseHeaders
import Ja3Proxy.ResponseStream
import Ja3Proxy.ResponseTranscript
import Ja3Proxy.SdkDelivery
import Ja3Proxy.ServiceToSdk
import Ja3Proxy.SessionRebind
import Ja3Proxy.RebindAtomicity
import Ja3Proxy.OperationLifetime
import Ja3Proxy.ClientDrain
import Ja3Proxy.DrainInvariant
import Ja3Proxy.DrainPromise
import Ja3Proxy.SessionContexts
import Ja3Proxy.ContextCleanup
import Ja3Proxy.CountTables
import Ja3Proxy.SdkAdmission
import Ja3Proxy.SdkAdmissionInvariant
import Ja3Proxy.ObservationRun
import Ja3Proxy.Exchange
import Ja3Proxy.ExchangeInvariant
import Ja3Proxy.ExchangeOutcome
import Ja3Proxy.SyncBridge
import Ja3Proxy.SyncBridgeSteps
import Ja3Proxy.SyncBridgeWakeups
import Ja3Proxy.SyncBridgeInvariant
import Ja3Proxy.SyncBridgeClosing
import Ja3Proxy.ListTotals
import Ja3Proxy.TypedArrays
import Ja3Proxy.BufferedBody
import Ja3Proxy.BufferedBodyLoop
import Ja3Proxy.BufferedBodySteps
import Ja3Proxy.BufferedBodyInvariant
import Ja3Proxy.BatchLanes
import Ja3Proxy.BatchLanesInvariant
import Ja3Proxy.BatchLanesRuns
import Ja3Proxy.CapabilityRefresh
import Ja3Proxy.CapabilityRefreshRuns
import Ja3Proxy.ServiceConfig
import Ja3Proxy.ExclusiveOwners
import Ja3Proxy.ServiceLoad
import Ja3Proxy.ServiceLoadRuns
import Ja3Proxy.ProfileRegistry
import Ja3Proxy.ServiceCapabilities
import Ja3Proxy.SdkRequest
import Ja3Proxy.FailedTranscript
import Ja3Proxy.FailureReports
import Ja3Proxy.UpstreamRequest
import Ja3Proxy.StatusReports
import Ja3Proxy.ClonedValues
import Ja3Proxy.SyncArguments
import Ja3Proxy.SyncCommands
import Ja3Proxy.ReportedDiagnostics
import Ja3Proxy.SyncReplies
import Ja3Proxy.SessionRevisions
import Ja3Proxy.SessionRevisionRuns
