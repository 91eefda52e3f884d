import OpenCodex.Bridge.CitationSpans
import OpenCodex.Bridge.EventQueue
import OpenCodex.Combo.DegenerateCut
import OpenCodex.Combo.Failover
import OpenCodex.Combo.Probe
import OpenCodex.Connect.FramingStreams
import OpenCodex.EventStream.RoundTrip
import OpenCodex.Freeform.Wrapper
import OpenCodex.Lab.ClaimStates
import OpenCodex.Lab.LedgerStore
import OpenCodex.Messages.Calls
import OpenCodex.Messages.LiveFrames
import OpenCodex.Recovery.Backpressure
import OpenCodex.Recovery.Trials
import OpenCodex.Repair.OneIdentity
import OpenCodex.Request.Release
import OpenCodex.Responses.GuardedTurn
import OpenCodex.Responses.History
import OpenCodex.Responses.MuseRoundTrip
import OpenCodex.Responses.NativeOutput
import OpenCodex.Routing.AffinityRuns
import OpenCodex.Routing.FailureWindow
import OpenCodex.Routing.Rotation
import OpenCodex.Spend.Debts
import OpenCodex.Spend.TornTail
import OpenCodex.Sse.BlockRelay
import OpenCodex.Sse.DecoderLimit
import OpenCodex.Sse.PreflightVerdict
import OpenCodex.Sse.PreludeEnds
import OpenCodex.Sse.PreludeTransparent
import OpenCodex.Text.EchoAgreement
import OpenCodex.Text.FoldingEscapes
import OpenCodex.Text.InlineThinkOnce
import OpenCodex.Text.Jsonc
import OpenCodex.Text.Masking
import OpenCodex.Text.Visualization
import OpenCodex.Tools.CallIds
import OpenCodex.Tools.GuardRuns
import OpenCodex.Translator.JsonByteSize
import OpenCodex.Usage.LedgerScan
import OpenCodex.Workflow.Eviction
import OpenCodex.Workflow.SendRing
import OpenCodex.Ws.PoolRuns
