import SyncAnywhere.Core.PartialRun
import SyncAnywhere.Daemon.SyncListener
import SyncAnywhere.Gui.IpcAgent

/-!
# The mode buttons

The main window has a radio button for each transfer mode with a port entry
beside it.  Pressing a button sends the daemon a mode message with whatever text
the entry holds.  The window opens with the UDP button pressed, whatever the
mode of the daemon, and sends no message for it.
-/

namespace SyncAnywhere.ModeButtons

open SyncAnywhere.CMemory
open SyncAnywhere.DaemonSettings
open SyncAnywhere.IpcAgent
open SyncAnywhere.Messages
open SyncAnywhere.Numeral
open SyncAnywhere.PartialRun
open SyncAnywhere.SyncListener
open SyncAnywhere.TaskQueue

/-! ## The window and the daemon -/

/-- A datagram from the window, named by the call that sent it. -/
inductive WindowMessage where
  | addFile (filepath heap : List Byte)
  | changeMode (mode : SyncMode) (port heap : List Byte)

def WindowMessage.datagram : WindowMessage → List Byte
  | addFile filepath heap => addFileToSyncRepos filepath heap
  | changeMode mode port heap => changeTcpUdpPort mode port heap

section Messages

variable {buffer received : MsgBuffer}

end Messages

/-! ## The mode -/

end SyncAnywhere.ModeButtons
