import DuneWeaver.Binary32.Behind
import DuneWeaver.Binary32.Literal
import DuneWeaver.Binary32.Strtof
import DuneWeaver.Binary32.Value
import DuneWeaver.Binary32.Words
import DuneWeaver.Channel.RealtimeInput
import DuneWeaver.Channel.TimedRead
import DuneWeaver.Channel.Utf8
import DuneWeaver.Configuration.FloatArray
import DuneWeaver.Configuration.Load
import DuneWeaver.Configuration.Numerals
import DuneWeaver.Configuration.RejectedChange
import DuneWeaver.Configuration.RoundTrip
import DuneWeaver.Configuration.RuntimePath
import DuneWeaver.Configuration.RuntimeSetting
import DuneWeaver.Configuration.RuntimeTree
import DuneWeaver.Configuration.RuntimeWalk
import DuneWeaver.Configuration.SpeedMap
import DuneWeaver.Decimal.Fixed
import DuneWeaver.Decimal.Numeral
import DuneWeaver.DnsQuery.Response
import DuneWeaver.FileCommands.Arguments
import DuneWeaver.FileCommands.Migrate
import DuneWeaver.FixedPoint.Slope
import DuneWeaver.FluidPath.References
import DuneWeaver.Gcode.CollapseLine
import DuneWeaver.Gcode.Evaluator
import DuneWeaver.Gcode.JobEnd
import DuneWeaver.Gcode.Parameters
import DuneWeaver.Gcode.Programs
import DuneWeaver.Homing.Cycles
import DuneWeaver.Homing.Progress
import DuneWeaver.Homing.Runs
import DuneWeaver.HttpRange.Range
import DuneWeaver.InputFile.ReadLine
import DuneWeaver.JSONEncoder.Decodes
import DuneWeaver.Json.Compact
import DuneWeaver.Kinematics.ConstrainJog
import DuneWeaver.Kinematics.FeedRequests
import DuneWeaver.Kinematics.MoveLine
import DuneWeaver.Kinematics.Relabelling
import DuneWeaver.Kinematics.ThetaRho
import DuneWeaver.Kinematics.ThrTranslator
import DuneWeaver.Leds.Agreement
import DuneWeaver.Leds.HandBack
import DuneWeaver.Leds.Live
import DuneWeaver.Lineedit.Editor
import DuneWeaver.Lineedit.History
import DuneWeaver.Lineedit.Line
import DuneWeaver.Lineedit.Recall
import DuneWeaver.Lineedit.Tabs
import DuneWeaver.Lines.Assembly
import DuneWeaver.Macros.ReadLine
import DuneWeaver.Memo.Cache
import DuneWeaver.NutsBolts.ReadExact
import DuneWeaver.NutsBolts.ReadFloat
import DuneWeaver.Overlay.HandBack
import DuneWeaver.Pins.Options
import DuneWeaver.Pins.Parse
import DuneWeaver.Planner.Feasibility
import DuneWeaver.Planner.Fifo
import DuneWeaver.Planner.Incremental
import DuneWeaver.Planner.Queue
import DuneWeaver.Planner.Ring
import DuneWeaver.Playlist.AutoPlay
import DuneWeaver.Playlist.ClearFeed
import DuneWeaver.Playlist.Ending
import DuneWeaver.Playlist.FailureCap
import DuneWeaver.Playlist.HomeSpacing
import DuneWeaver.Playlist.Isolation
import DuneWeaver.Playlist.Lookup
import DuneWeaver.Playlist.Passes
import DuneWeaver.Playlist.Pause
import DuneWeaver.Playlist.QuietGate
import DuneWeaver.Playlist.QuietHold
import DuneWeaver.Playlist.Reference
import DuneWeaver.Playlist.ResolvedPath
import DuneWeaver.Playlist.Snapshot
import DuneWeaver.PlaylistParse.RunArgs
import DuneWeaver.Protocol.CrashHome
import DuneWeaver.Protocol.DeadHold
import DuneWeaver.Protocol.Flush
import DuneWeaver.Protocol.GotoPatterns
import DuneWeaver.Protocol.SkipKept
import DuneWeaver.Protocol.StaleStop
import DuneWeaver.Protocol.StopFinal
import DuneWeaver.Protocol.StoppedMotion
import DuneWeaver.QuietHours.Grammar
import DuneWeaver.Reading.Longest
import DuneWeaver.Regex.Match
import DuneWeaver.RingBuffer.Fifo
import DuneWeaver.RingBuffer.Window
import DuneWeaver.RingLog.Snapshot
import DuneWeaver.Rounds.Schedule
import DuneWeaver.SandApi.DirListing
import DuneWeaver.SandApi.PatternsEtag
import DuneWeaver.SandStatus.Decodes
import DuneWeaver.SandStatus.Encode
import DuneWeaver.Settings.AcceptedText
import DuneWeaver.Settings.RefusedWrite
import DuneWeaver.Settings.Reload
import DuneWeaver.Settings.Transport
import DuneWeaver.Spindles.MapSpeed
import DuneWeaver.Spindles.VfdRecords
import DuneWeaver.Spindles.VfdReply
import DuneWeaver.Stepper.Exact
import DuneWeaver.Stepper.Rings
import DuneWeaver.Stepper.Safety
import DuneWeaver.Stepper.Segment
import DuneWeaver.Stepper.SegmentLoop
import DuneWeaver.Stepper.SegmentRamps
import DuneWeaver.Stepper.SegmentSteps
import DuneWeaver.Stepper.Slots
import DuneWeaver.Structured.Program
import DuneWeaver.TelnetClient.Read
import DuneWeaver.TelnetClient.Write
import DuneWeaver.TimeKeeper.SetTz
import DuneWeaver.Transition.Run
import DuneWeaver.UniformMotion.Ramp
import DuneWeaver.WebServer.ContentType
import DuneWeaver.WebServer.Update
import DuneWeaver.WebServer.Upload
import DuneWeaver.WifiConfig.StaLink
import DuneWeaver.Xmodem.Numbering
import DuneWeaver.Xmodem.RoundTrip
import DuneWeaver.Xmodem.Transmit
