import Vellaveto.Lib.Run
import Vellaveto.Lib.Text
import Vellaveto.Lib.Tail
import Vellaveto.Lib.Trim
import Vellaveto.Lib.Window
import Vellaveto.Json
import Vellaveto.JsonText
import Vellaveto.Types.Chars
import Vellaveto.Types.Provenance
import Vellaveto.Engine.Delegation
import Vellaveto.Engine.Deputy
import Vellaveto.Engine.Contagion
import Vellaveto.Mcp.SessionSemantics
import Vellaveto.Engine.Params
import Vellaveto.Engine.Path
import Vellaveto.Engine.Domain
import Vellaveto.Engine.UrlAuthority
import Vellaveto.Lib.AsciiCase
import Vellaveto.Types.Unicode
import Vellaveto.Engine.Compile
import Vellaveto.Engine.RuleCheck
import Vellaveto.Engine.Transition
import Vellaveto.Engine.IpBlocklist
import Vellaveto.Lib.Decision
import Vellaveto.Engine.Constraint
import Vellaveto.Engine.Conditions
import Vellaveto.Engine.Legacy
import Vellaveto.Engine.Evaluate
import Vellaveto.Engine.OrderIndependence
import Vellaveto.Engine.Traced
import Vellaveto.Engine.LegacyRules
import Vellaveto.Engine.LegacyAgreement
import Vellaveto.Mcp.Extractor
import Vellaveto.Lib.Explore
import Vellaveto.Lib.Expose
import Vellaveto.Lib.Frames
import Vellaveto.Lib.Glob
import Vellaveto.Lib.BitSet
import Vellaveto.Types.Capability
import Vellaveto.Mcp.CapabilityPattern
import Vellaveto.Mcp.GlobSubset
import Vellaveto.Mcp.GlobCost
import Vellaveto.Mcp.CapabilityTarget
import Vellaveto.Mcp.DomainSubset
import Vellaveto.Mcp.CapabilityToken
import Vellaveto.Lib.Netstring
import Vellaveto.Mcp.TokenBinding
import Vellaveto.Mcp.CapabilityAttenuation
import Vellaveto.Mcp.ToolQuota
import Vellaveto.Lib.Table
import Vellaveto.Mcp.RugPull
import Vellaveto.Mcp.InvalidName
import Vellaveto.Lib.Counters
import Vellaveto.Engine.ContextCheck
import Vellaveto.Mcp.RelayHistory
import Vellaveto.Mcp.RevokeCascade
import Vellaveto.Approval.Store
import Vellaveto.Approval.SingleUse
import Vellaveto.Approval.Restart
import Vellaveto.Lib.Index
import Vellaveto.Approval.Sequential
import Vellaveto.Approval.DedupIndex
import Vellaveto.Mcp.ResponseTaint
import Vellaveto.Lib.Hex
import Vellaveto.Lib.Merkle
import Vellaveto.Audit.Types
import Vellaveto.Audit.Merkle
import Vellaveto.Lib.Encoding
import Vellaveto.Audit.Chain
import Vellaveto.Audit.Files
import Vellaveto.Audit.Rotation
import Vellaveto.Audit.Logger
import Vellaveto.Audit.ChainHead
import Vellaveto.Audit.PartialFailure
import Vellaveto.Audit.CleanRun
import Vellaveto.Audit.RotationFailure
import Vellaveto.Audit.Sequences
import Vellaveto.Audit.Crash
import Vellaveto.Audit.Checkpoints
import Vellaveto.Audit.CrossRotation
import Vellaveto.Mcp.MethodNames
import Vellaveto.Mcp.Nhi
import Vellaveto.Mcp.TerminalAuthority
import Vellaveto.Mcp.DelegationGraph
import Vellaveto.Engine.PathSound
import Vellaveto.Engine.CircuitBreaker
import Vellaveto.Engine.CircuitOpen
import Vellaveto.Engine.HalfOpen
import Vellaveto.Engine.Lockout
import Vellaveto.Mcp.SessionGuard
import Vellaveto.Mcp.ClosedSessions
import Vellaveto.Mcp.SessionHistory
import Vellaveto.Mcp.WarmRestart
import Vellaveto.Mcp.CrossCallDlp
import Vellaveto.Mcp.Dpop
import Vellaveto.Lib.Slice
import Vellaveto.Lib.Spans
import Vellaveto.Shield.Pii
import Vellaveto.Lib.Effect
import Vellaveto.Lib.Replace
import Vellaveto.Lib.SortedMap
import Vellaveto.Shield.Sanitizer
import Vellaveto.Shield.Masking
import Vellaveto.Shield.Redaction
import Vellaveto.Shield.RoundTrip
import Vellaveto.Shield.CredentialVault
import Vellaveto.Shield.EncryptedStore
import Vellaveto.Shield.SingleUseCredential
import Vellaveto.Shield.Replenish
import Vellaveto.Engine.Abac
import Vellaveto.Engine.ForbidInDoubt
import Vellaveto.Mcp.Credentials
import Vellaveto.Approval.Usable
import Vellaveto.Approval.SelfApproval
import Vellaveto.Approval.ContextText
import Vellaveto.Approval.DedupKey
import Vellaveto.Shield.ContextIsolation
import Vellaveto.Shield.SessionIsolator
import Vellaveto.Engine.ActionSequence
import Vellaveto.Engine.DomainNormal
import Vellaveto.Engine.DomainLabels
import Vellaveto.Engine.DeclaredCapabilities
import Vellaveto.Engine.RegexSafety
import Vellaveto.Approval.FactSummary
import Vellaveto.Mcp.TextCuts
import Vellaveto.Mcp.OutputValidation
import Vellaveto.Engine.Workflow
import Vellaveto.Engine.ContextConditions
import Vellaveto.Engine.Membership
import Vellaveto.Engine.AbacPatterns
import Vellaveto.Engine.AbacConflicts
import Vellaveto.Engine.DecisionCache
import Vellaveto.Engine.CacheInvalidation
import Vellaveto.Engine.SessionContext
import Vellaveto.Engine.CacheKey
import Vellaveto.Engine.CacheTransparency
import Vellaveto.Audit.LogLines
import Vellaveto.Audit.RotationSize
import Vellaveto.Audit.HybridManifest
import Vellaveto.Audit.CheckpointRace
import Vellaveto.Lib.Cuts
import Vellaveto.Server.ParamScan
import Vellaveto.Server.SameHost
import Vellaveto.Server.WalkAgreement
import Vellaveto.Lib.Calendar
import Vellaveto.Audit.Timestamps
import Vellaveto.Audit.ReadBack
import Vellaveto.Lib.Report
import Vellaveto.Engine.Sequence
import Vellaveto.Engine.CumulativeHarm
import Vellaveto.Engine.DenialOfWallet
import Vellaveto.Engine.LongPrefix
import Vellaveto.Engine.Cascading
import Vellaveto.Lib.Memory
import Vellaveto.Mcp.A2aIntegrity
import Vellaveto.Engine.LeastAgency
import Vellaveto.Engine.Lint
import Vellaveto.Mcp.TaskSecurity
import Vellaveto.Mcp.TaskChain
import Vellaveto.Mcp.TaskResume
import Vellaveto.Engine.CacheIndex
import Vellaveto.Engine.JsonDepth
import Vellaveto.Canonical.RequestHash
import Vellaveto.Discovery.Diff
import Vellaveto.Mcp.SecretSubstitution
import Vellaveto.Server.PolicyLifecycle
import Vellaveto.Engine.VerifiedCore
import Vellaveto.Lib.Reach
import Vellaveto.Discovery.Reachability
