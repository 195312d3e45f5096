import Mathlib

/-!
# Transfer settings of the daemon

The three globals behind `mutex_trasmode`.  Each setter and each getter is one
atomic step.
-/

namespace SyncAnywhere.DaemonSettings

inductive SyncMode where
  | tcp
  | udp
  deriving DecidableEq, Repr

instance : Fintype SyncMode where
  elems := {.tcp, .udp}
  complete := by
    intro mode
    cases mode <;> decide

structure Settings where
  globalTransferMode : SyncMode
  globalTcpPort : ℕ
  globalUdpPort : ℕ
  deriving DecidableEq, Repr

def setTransferMode (modeCode : SyncMode) (settings : Settings) : Settings :=
  { settings with globalTransferMode := modeCode }

def setTcpPort (port : ℕ) (settings : Settings) : Settings :=
  { settings with globalTcpPort := port }

def setUdpPort (port : ℕ) (settings : Settings) : Settings :=
  { settings with globalUdpPort := port }

def getTransferMode (settings : Settings) : SyncMode :=
  settings.globalTransferMode

def getTcpPort (settings : Settings) : ℕ :=
  settings.globalTcpPort

def getUdpPort (settings : Settings) : ℕ :=
  settings.globalUdpPort

/-! ## Either port -/

def portOf : SyncMode → Settings → ℕ
  | .tcp => getTcpPort
  | .udp => getUdpPort

def setPort : SyncMode → ℕ → Settings → Settings
  | .tcp => setTcpPort
  | .udp => setUdpPort

@[simp]
theorem portOf_setPort_self (mode : SyncMode) (port : ℕ)
    (settings : Settings) : portOf mode (setPort mode port settings) = port := by
  cases mode <;> rfl

theorem portOf_setPort_of_ne {mode other : SyncMode} (hne : other ≠ mode)
    (port : ℕ) (settings : Settings) :
    portOf other (setPort mode port settings) = portOf other settings := by
  cases mode with
  | tcp =>
      cases other with
      | tcp => exact absurd rfl hne
      | udp => rfl
  | udp =>
      cases other with
      | tcp => rfl
      | udp => exact absurd rfl hne

/-- The settings with which `startDaemon` starts the threads. -/
def daemonSettings : Settings :=
  ⟨.udp, 20000, 30000⟩

end SyncAnywhere.DaemonSettings
