import SlopDesk.Wire.FramingTheorems
import SlopDesk.Mux.EnvelopeTheorems
import SlopDesk.Wire.ReplayFold
import SlopDesk.Wire.ReplayPayloads
import SlopDesk.Wire.ReplayAltScreen
import SlopDesk.Mux.ChannelsTheorems
import SlopDesk.Session.FanoutTheorems
import SlopDesk.Video.DecodeSequencerTheorems
import SlopDesk.Session.ResizeTheorems
import SlopDesk.Video.Retransmit
import SlopDesk.Session.OutboxTheorems
import SlopDesk.Document.RetentionTheorems
import SlopDesk.HostPane.EndTheorems
import SlopDesk.HostPane.FirstStream
import SlopDesk.HostServer.ConvergenceTheorems
import SlopDesk.Agent.NestedRuns
import SlopDesk.Agent.RaisedBlocks
import SlopDesk.Agent.DetectorRuns
import SlopDesk.Agent.PaneScanRuns
import SlopDesk.HostPane.BlockEvents
import SlopDesk.Superd.TranscriptTheorems
import SlopDesk.Document.SelectedTabs
import SlopDesk.Tree.Normalize
import SlopDesk.Video.PendingRuns
import SlopDesk.Video.Bursts
import SlopDesk.Video.PresentQueue
import SlopDesk.Video.AudioJitterRuns
import SlopDesk.Video.AnnexB
import SlopDesk.Video.RecoveryMessage
import SlopDesk.Session.RepoWatchRuns
import SlopDesk.HostServer.PumpThreadTheorems
import SlopDesk.Superd.JournalLives
import SlopDesk.Sanitize.DanglingSplit
import SlopDesk.Superd.JournalSweep
import SlopDesk.Superd.PauseOwners
import SlopDesk.Superd.LateSubscribers
import SlopDesk.Superd.TapReports
import SlopDesk.Superd.CapturedOutput
import SlopDesk.Client.PauseLatch
import SlopDesk.Sanitize.InputModeTheorems
import SlopDesk.Sanitize.PlainTextTheorems
import SlopDesk.Sanitize.SyncFrameTheorems
import SlopDesk.Sanitize.DistillTheorems
import SlopDesk.Probe.PathConfineTheorems
import SlopDesk.Screend.OneReading
import SlopDesk.Terminal.ModeTrackerTheorems
import SlopDesk.Tree.Seams
import SlopDesk.Video.DecodeGate
