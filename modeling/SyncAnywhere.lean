import SyncAnywhere.Core.CMemory
import SyncAnywhere.Core.ByteStream
import SyncAnywhere.Core.ReceivedLine
import SyncAnywhere.Core.Numeral
import SyncAnywhere.Core.Run
import SyncAnywhere.Core.Handles
import SyncAnywhere.Core.Multiples
import SyncAnywhere.Core.RingLog
import SyncAnywhere.Core.WriteLog
import SyncAnywhere.Core.PartialRun
import SyncAnywhere.Core.GuardedRun
import SyncAnywhere.Core.Strtol
import SyncAnywhere.Core.SingleFloat
import SyncAnywhere.Core.LinkedRing
import SyncAnywhere.Core.PathWalk
import SyncAnywhere.Core.ShellWords
import SyncAnywhere.Ipc.Messages
import SyncAnywhere.Ipc.FilePaths
import SyncAnywhere.Ipc.FileSize
import SyncAnywhere.Ipc.ProgressMessage
import SyncAnywhere.Daemon.TaskQueue
import SyncAnywhere.Daemon.TaskTracking
import SyncAnywhere.Daemon.QueueRuns
import SyncAnywhere.Daemon.WaitingTasks
import SyncAnywhere.Daemon.QueueCapacity
import SyncAnywhere.Daemon.RingOverflow
import SyncAnywhere.Daemon.TcpServer
import SyncAnywhere.Daemon.ServedFiles
import SyncAnywhere.Daemon.FileSender
import SyncAnywhere.Daemon.TaskRetention
import SyncAnywhere.Daemon.LostReports
import SyncAnywhere.Daemon.ProgressReports
import SyncAnywhere.Daemon.Transfer
import SyncAnywhere.Daemon.Exchange
import SyncAnywhere.Daemon.Settings
import SyncAnywhere.Daemon.Descriptors
import SyncAnywhere.Daemon.Dispatch
import SyncAnywhere.Daemon.QuietSwitches
import SyncAnywhere.Daemon.AtomicTurns
import SyncAnywhere.Daemon.RepeatedSends
import SyncAnywhere.Daemon.UnsafeFetch
import SyncAnywhere.Daemon.PeerManage
import SyncAnywhere.Daemon.SyncListener
import SyncAnywhere.Daemon.FreshAnswers
import SyncAnywhere.Daemon.UnsafeQuery
import SyncAnywhere.Daemon.StaleAnswers
import SyncAnywhere.Daemon.PortService
import SyncAnywhere.Daemon.UnsafeRead
import SyncAnywhere.Daemon.SettingsAgreement
import SyncAnywhere.Daemon.SenderEquivalence
import SyncAnywhere.Daemon.PortQuery
import SyncAnywhere.Daemon.FanOut
import SyncAnywhere.Daemon.UdpServer
import SyncAnywhere.Daemon.LineBounds
import SyncAnywhere.Daemon.RecordMemory
import SyncAnywhere.Daemon.NameEscape
import SyncAnywhere.Gui.GuiListener
import SyncAnywhere.Gui.IpcAgent
import SyncAnywhere.Gui.ReportDelivery
import SyncAnywhere.Gui.HexFields
import SyncAnywhere.Gui.ProgressBar
import SyncAnywhere.Gui.DoneReports
import SyncAnywhere.Gui.SoundReports
import SyncAnywhere.Gui.UnsyncList
import SyncAnywhere.Gui.DatagramBounds
import SyncAnywhere.Gui.CopyCommand
import SyncAnywhere.Gui.ProgressArithmetic
import SyncAnywhere.Gui.ModeButtons
