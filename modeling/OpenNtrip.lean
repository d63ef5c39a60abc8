import OpenNtrip.Lib.Coalesce
import OpenNtrip.Lib.Transducer
import OpenNtrip.NtripCore.Chunked
import OpenNtrip.NtripCore.Request
import OpenNtrip.NtripCore.Session
import OpenNtrip.NtripCore.BodySplit
import OpenNtrip.NtripCore.DriveHeader
import OpenNtrip.NtripCore.SessionSplit
import OpenNtrip.NtripCore.HeaderCap
import OpenNtrip.NtripCore.Packetization
import OpenNtrip.NtripCore.BodyReference
import OpenNtrip.NtripCore.ChunkedRendering
import OpenNtrip.NtripCore.Conservation
import OpenNtrip.NtripCore.Lifecycle
import OpenNtrip.NtripCore.Sourcetable
import OpenNtrip.NtripCore.TableExtent
import OpenNtrip.NtripCore.GgaCadence
import OpenNtrip.Gnss.Crc24q
import OpenNtrip.Gnss.Frame
import OpenNtrip.Gnss.FrameResync
import OpenNtrip.Gnss.FrameAccounting
import OpenNtrip.Lib.Bits
import OpenNtrip.Lib.BinaryPolynomial
import OpenNtrip.Gnss.CrcPolynomial
import OpenNtrip.Lib.SizedParser
import OpenNtrip.Gnss.BitReader
import OpenNtrip.Gnss.Decode
import OpenNtrip.Gnss.DecodePrefix
import OpenNtrip.Gnss.Encode
import OpenNtrip.App.CorrQueue
import OpenNtrip.App.NtripWorker
import OpenNtrip.App.Connection
import OpenNtrip.App.GgaAck
import OpenNtrip.NtripCore.Endings
import OpenNtrip.App.Reconnect
import OpenNtrip.App.Refusal
import OpenNtrip.App.SerialWorker
import OpenNtrip.Lib.StepSystem
import OpenNtrip.App.SerialHandover
import OpenNtrip.App.SerialDisturbance
import OpenNtrip.App.CorrInterleaving
import OpenNtrip.App.ProfileFile
import OpenNtrip.App.ProfileStore
import OpenNtrip.App.ImportEffect
import OpenNtrip.App.ImportPlan
import OpenNtrip.App.SaveAs
import OpenNtrip.App.SettingsLoad
import OpenNtrip.Lib.Terminated
import OpenNtrip.NtripCore.Base64
import OpenNtrip.NtripCore.RequestWire
import OpenNtrip.App.RequestFraming
import OpenNtrip.App.LegacyImport
import OpenNtrip.App.LegacyLog
import OpenNtrip.App.RtcmAccounting
import OpenNtrip.Geodb.Fold
import OpenNtrip.Geodb.Format
import OpenNtrip.Lib.KeyRange
import OpenNtrip.Geodb.GeoDb
import OpenNtrip.Geodb.Tolerance
import OpenNtrip.Geodb.Assembly
import OpenNtrip.Geodb.Image
import OpenNtrip.Geodb.Readback
import OpenNtrip.Geodb.Search
import OpenNtrip.Geodb.ZipLookup
import OpenNtrip.Geodb.ImageLength
import OpenNtrip.Geodb.InputOrder
import OpenNtrip.Geodb.Labels
import OpenNtrip.NtripCore.SourcetableRecords
import OpenNtrip.Rust.Float
import OpenNtrip.Gnss.Nmea
import OpenNtrip.Gnss.Gga
import OpenNtrip.Gnss.NmeaCorruption
import OpenNtrip.App.SerialReceive
import OpenNtrip.App.ForwardBlock
import OpenNtrip.App.SerialForward
import OpenNtrip.App.PlotSeries
import OpenNtrip.App.Capture
import OpenNtrip.App.ExportName
import OpenNtrip.App.ProfilesDialog
import OpenNtrip.Gnss.Clock
import OpenNtrip.App.CivilDays
import OpenNtrip.Lib.Substitution
import OpenNtrip.Rust.Lowercase
import OpenNtrip.Geodb.FoldNormal
import OpenNtrip.App.DailyLog
import OpenNtrip.App.Logger
import OpenNtrip.App.LoggerFiles
import OpenNtrip.App.Verdict
import OpenNtrip.App.Reports
import OpenNtrip.App.ReportRuns
import OpenNtrip.App.PositionVerdict
import OpenNtrip.App.Interface
import OpenNtrip.App.Sessions
import OpenNtrip.App.CaptureRuns
import OpenNtrip.App.Milestones
import OpenNtrip.App.SettingsStore
import OpenNtrip.Geodb.Generate
import OpenNtrip.App.TextFilter
import OpenNtrip.Lib.StableSort
import OpenNtrip.App.Browser
import OpenNtrip.App.TableReports
import OpenNtrip.App.ProfileTransfer
