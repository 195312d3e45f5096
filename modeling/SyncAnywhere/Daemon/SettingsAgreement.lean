import SyncAnywhere.Gui.IpcAgent
import SyncAnywhere.Daemon.SyncListener

/-!
# Settings after a history of GUI actions

A run of GUI actions is received into one buffer.  The port of a mode message
below 256 loses its low byte on the way, and the daemon reads in its place the
byte that earlier messages left at index 4.
-/

namespace SyncAnywhere.SettingsAgreement

open SyncAnywhere.CMemory
open SyncAnywhere.Numeral
open SyncAnywhere.Messages
open SyncAnywhere.DaemonSettings
open SyncAnywhere.IpcAgent
open SyncAnywhere.SyncListener

/-- One GUI action and what the daemon's turn for it finds in its
environment. -/
structure GuiEvent where
  action : GuiAction
  calls : ListenCalls

/-- The daemon receives the datagrams of the actions in order. -/
def receiveAll (daemon : Daemon) (events : List GuiEvent) : CResult Daemon :=
  events.foldlM
    (fun daemon event =>
      syncListen event.calls daemon (some event.action.datagram))
    daemon

/-- The settings the user asked for by a history of actions. -/
def chosen (settings : Settings) (actions : List GuiAction) : Settings :=
  actions.foldl GuiAction.choose settings

/-- Byte 4 of the receive buffer behind one more action. -/
def leaveByte (stale : Byte) : GuiAction → Byte
  | .addFile _ _ => 0x20#8
  | .selectMode _ port _ =>
      if 256 ≤ port then BitVec.ofNat 8 port else stale

/-- Byte 4 of the receive buffer behind a history of actions. -/
def staleByte (initial : Byte) (actions : List GuiAction) : Byte :=
  actions.foldl leaveByte initial

/-- The port survives the message. -/
def PortKept (stale : Byte) (port : ℕ) : Prop :=
  256 ≤ port ∨ port = stale.toNat

/-- The last selection of `mode`, if there is one, has a port that survives
its message. -/
def LastPortKept (mode : SyncMode) (initial : Byte)
    (actions : List GuiAction) : Prop :=
  ∀ front port heap back,
    actions = front ++ .selectMode mode port heap :: back →
    (∀ action ∈ back, action.selects mode = false) →
    PortKept (staleByte initial front) port

/-! ## One more action -/

theorem staleByte_concat (initial : Byte) (actions : List GuiAction)
    (action : GuiAction) :
    staleByte initial (actions ++ [action]) =
      leaveByte (staleByte initial actions) action := by
  simp [staleByte]

theorem chosen_concat (settings : Settings) (actions : List GuiAction)
    (action : GuiAction) :
    chosen settings (actions ++ [action]) =
      GuiAction.choose (chosen settings actions) action := by
  simp [chosen]

section Concat

variable {mode : SyncMode} {initial : Byte} {actions : List GuiAction}

/-- An action that does not select the mode leaves the last selection of the
mode as it was. -/
theorem lastPortKept_concat_other {action : GuiAction}
    (hother : action.selects mode = false) :
    LastPortKept mode initial (actions ++ [action]) ↔
      LastPortKept mode initial actions := by
  constructor
  · intro hkept front port heap back hsplit hlast
    apply hkept front port heap (back ++ [action])
    · rw [hsplit, List.append_assoc, List.cons_append]
    · intro later hlater
      rcases List.mem_append.mp hlater with hmem | hmem
      · exact hlast later hmem
      · rw [List.mem_singleton.mp hmem]
        exact hother
  · intro hkept front port heap back hsplit hlast
    rcases List.eq_nil_or_concat back with rfl | ⟨middle, last, rfl⟩
    · have hsame := (List.append_inj' hsplit rfl).2
      rw [List.singleton_inj.mp hsame] at hother
      simp [GuiAction.selects] at hother
    · rw [List.concat_eq_append, ← List.cons_append, ← List.append_assoc]
        at hsplit
      apply hkept front port heap middle (List.append_inj' hsplit rfl).1
      intro later hlater
      exact hlast later (by simp [hlater])

/-- A new selection of the mode is its last one. -/
theorem lastPortKept_concat_select (port : ℕ) (heap : List Byte) :
    LastPortKept mode initial (actions ++ [.selectMode mode port heap]) ↔
      PortKept (staleByte initial actions) port := by
  constructor
  · intro hkept
    exact hkept actions port heap [] rfl (by simp)
  · intro hkept front other otherHeap back hsplit hlast
    rcases List.eq_nil_or_concat back with rfl | ⟨middle, last, rfl⟩
    · obtain ⟨hfront, hsame⟩ := List.append_inj' hsplit rfl
      obtain ⟨-, hport, -⟩ := GuiAction.selectMode.inj (List.singleton_inj.mp hsame)
      rw [← hfront, ← hport]
      exact hkept
    · rw [List.concat_eq_append, ← List.cons_append, ← List.append_assoc]
        at hsplit
      have hsame := (List.append_inj' hsplit rfl).2
      have hselects := hlast last (by simp)
      rw [← List.singleton_inj.mp hsame] at hselects
      simp [GuiAction.selects] at hselects

end Concat

/-! ## One turn of the listener -/

theorem portOfBytes {port : ℕ} (hport : port ≤ 65535) (stale : Byte) :
    256 * (BitVec.ofNat 8 (port / 256)).toNat +
        (if 256 ≤ port then BitVec.ofNat 8 port else stale).toNat =
      if 256 ≤ port then port else stale.toNat := by
  by_cases hhigh : 256 ≤ port
  · rw [if_pos hhigh, if_pos hhigh, BitVec.toNat_ofNat, BitVec.toNat_ofNat]
    omega
  · rw [if_neg hhigh, if_neg hhigh, BitVec.toNat_ofNat]
    omega

/-- A turn for an add-file action leaves the settings alone. -/
theorem syncListen_addFile (calls : ListenCalls) (daemon : Daemon)
    {path heap : List Byte} (hvalid : (GuiAction.addFile path heap).Valid) :
    ∃ next, syncListen calls daemon
        (some (GuiAction.addFile path heap).datagram) = .ok next ∧
      next.settings = daemon.settings ∧ next.buf.byteAt 4 = 0x20#8 := by
  obtain ⟨hfree, -, hmax, hshort⟩ := hvalid
  have hlong : path.length ≤ 199 := hmax.trans (by decide)
  obtain ⟨received, hreceived⟩ := exists_receiveDatagram daemon.buf hshort
  obtain ⟨htype, hstale⟩ := received_addFile hfree hlong hshort hreceived
  have hpath := getFilePath_received hfree hlong hshort hreceived
  rw [if_pos hmax] at hpath
  have hadded : addNewFile calls received daemon.repos =
      .ok (TaskQueue.addItem2SyncRepos (isLocalIp calls.interfaces)
        (basename (cstr (path ++ calls.heap))) (cstr (path ++ calls.heap))
        (FileSize.getFileSize calls.sizeCalls
          (calls.files (cstr (path ++ calls.heap)))) daemon.repos) := by
    rw [addNewFile, hpath]
    rfl
  exact ⟨_, syncListen_addNewFile hreceived htype hadded, rfl, hstale⟩

/-- A turn for a selection sets the mode, and the port as far as it was
sent. -/
theorem syncListen_selectMode (calls : ListenCalls) (daemon : Daemon)
    {mode : SyncMode} {port : ℕ} {heap : List Byte}
    (hvalid : (GuiAction.selectMode mode port heap).Valid) :
    ∃ next, syncListen calls daemon
        (some (GuiAction.selectMode mode port heap).datagram) = .ok next ∧
      next.settings = GuiAction.choose daemon.settings (.selectMode mode
        (if 256 ≤ port then port else (daemon.buf.byteAt 4).toNat) heap) ∧
      next.buf.byteAt 4 =
        leaveByte (daemon.buf.byteAt 4) (.selectMode mode port heap) := by
  obtain ⟨-, hport, hshort⟩ := hvalid
  obtain ⟨received, hreceived⟩ := exists_receiveDatagram daemon.buf hshort
  obtain ⟨htype, hmode, hhigh, hlow⟩ :=
    received_selectMode hport hshort hreceived
  refine ⟨_, syncListen_notifyProtocol hreceived htype, ?_, hlow⟩
  simp only [notifyProtocol, hmode, hhigh, hlow, portOfBytes hport]
  cases mode <;> rfl

/-! ## Runs -/

theorem portOf_choose_self (mode : SyncMode) (settings : Settings) (port : ℕ)
    (heap : List Byte) :
    portOf mode (GuiAction.choose settings (.selectMode mode port heap)) =
      port := by
  cases mode <;> rfl

theorem portOf_choose_of_ne {mode other : SyncMode} (hne : other ≠ mode)
    (settings : Settings) (port : ℕ) (heap : List Byte) :
    portOf other (GuiAction.choose settings (.selectMode mode port heap)) =
      portOf other settings := by
  calc portOf other (GuiAction.choose settings (.selectMode mode port heap))
      = portOf other (setPort mode port settings) := by
        cases mode <;> cases other <;> rfl
    _ = portOf other settings := portOf_setPort_of_ne hne port settings

/-- The settings are their mode and their two ports. -/
theorem settings_ext_iff (left right : Settings) :
    left = right ↔
      getTransferMode left = getTransferMode right ∧
        ∀ mode, portOf mode left = portOf mode right := by
  constructor
  · rintro rfl
    exact ⟨rfl, fun _ => rfl⟩
  · rintro ⟨hmode, hports⟩
    cases left
    cases right
    rw [Settings.mk.injEq]
    exact ⟨hmode, hports .tcp, hports .udp⟩

/-- What a run has done to the buffer and to the settings, compared with the
user's choices. -/
structure Agreement (start : Daemon) (actions : List GuiAction)
    (final : Daemon) : Prop where
  stale : final.buf.byteAt 4 = staleByte (start.buf.byteAt 4) actions
  mode : getTransferMode final.settings =
    getTransferMode (chosen start.settings actions)
  port : ∀ mode,
    portOf mode final.settings = portOf mode (chosen start.settings actions) ↔
      LastPortKept mode (start.buf.byteAt 4) actions

namespace Agreement

variable {start final : Daemon} {actions : List GuiAction}

theorem nil (start : Daemon) : Agreement start [] start where
  stale := rfl
  mode := rfl
  port := by simp [LastPortKept, chosen]

theorem effectivePort_eq_iff (stale : Byte) (port : ℕ) :
    (if 256 ≤ port then port else stale.toNat) = port ↔
      PortKept stale port := by
  by_cases hhigh : 256 ≤ port
  · simp [PortKept, hhigh]
  · simp [PortKept, hhigh, eq_comm]

/-- Step lemma: one more action keeps the agreement. -/
theorem step (hagree : Agreement start actions final) (calls : ListenCalls)
    {action : GuiAction} (hvalid : action.Valid) :
    ∃ next, syncListen calls final (some action.datagram) = .ok next ∧
      Agreement start (actions ++ [action]) next := by
  cases action with
  | addFile path heap =>
      obtain ⟨next, hnext, hsettings, hstale⟩ :=
        syncListen_addFile calls final hvalid
      refine ⟨next, hnext, ?_, ?_, ?_⟩
      · rw [staleByte_concat, hstale, leaveByte]
      · rw [chosen_concat, hsettings, hagree.mode]
        rfl
      · intro mode
        rw [chosen_concat, hsettings, lastPortKept_concat_other rfl]
        exact hagree.port mode
  | selectMode mode port heap =>
      obtain ⟨next, hnext, hsettings, hstale⟩ :=
        syncListen_selectMode calls final hvalid
      refine ⟨next, hnext, ?_, ?_, ?_⟩
      · rw [staleByte_concat, hstale, hagree.stale]
      · rw [chosen_concat, hsettings]
        cases mode <;> rfl
      · intro other
        rw [chosen_concat, hsettings]
        by_cases hsame : other = mode
        · rw [hsame, portOf_choose_self, portOf_choose_self,
            lastPortKept_concat_select, hagree.stale]
          exact effectivePort_eq_iff _ port
        · have hother : (GuiAction.selectMode mode port heap).selects other =
              false := by
            simpa [GuiAction.selects] using Ne.symm hsame
          rw [portOf_choose_of_ne hsame, portOf_choose_of_ne hsame,
            lastPortKept_concat_other hother]
          exact hagree.port other

end Agreement

/-- Run lemma: the daemon survives every history of valid actions, in
agreement with it. -/
theorem receiveAll_agreement (start : Daemon) (events : List GuiEvent)
    (hvalid : ∀ event ∈ events, event.action.Valid) :
    ∃ final, receiveAll start events = .ok final ∧
      Agreement start (events.map GuiEvent.action) final := by
  induction events using List.reverseRecOn with
  | nil => exact ⟨start, rfl, Agreement.nil start⟩
  | append_singleton events event ih =>
      obtain ⟨middle, hmiddle, hagree⟩ :=
        ih fun earlier hearlier => hvalid earlier (by simp [hearlier])
      obtain ⟨final, hfinal, hnext⟩ :=
        hagree.step event.calls (hvalid event (by simp))
      refine ⟨final, ?_, by simpa using hnext⟩
      rw [receiveAll] at hmiddle
      rw [receiveAll, List.foldlM_append, hmiddle, CResult.ok_bind,
        List.foldlM_cons, hfinal]
      rfl

/-- After any history of valid actions the daemon's settings are the chosen
ones exactly when the last TCP selection and the last UDP selection each had a
port of 256 or more, or a port that equals the byte earlier messages left at
index 4 of the receive buffer. -/
theorem settings_agree_iff (start : Daemon) (events : List GuiEvent)
    (hvalid : ∀ event ∈ events, event.action.Valid) :
    ∃ final, receiveAll start events = .ok final ∧
      (final.settings =
          chosen start.settings (events.map GuiEvent.action) ↔
        LastPortKept .tcp (start.buf.byteAt 4) (events.map GuiEvent.action) ∧
        LastPortKept .udp (start.buf.byteAt 4)
          (events.map GuiEvent.action)) := by
  obtain ⟨final, hfinal, hagree⟩ := receiveAll_agreement start events hvalid
  refine ⟨final, hfinal, ?_⟩
  rw [settings_ext_iff, and_iff_right hagree.mode, ← hagree.port .tcp,
    ← hagree.port .udp]
  constructor
  · intro hports
    exact ⟨hports .tcp, hports .udp⟩
  · rintro ⟨htcp, hudp⟩ mode
    cases mode with
    | tcp => exact htcp
    | udp => exact hudp

/-- A file is added, then TCP is selected with the given port. -/
def addThenSelectTcp (port : ℕ) : List GuiEvent :=
  [.addFile [0x61#8] [], .selectMode .tcp port []].map
    fun action => ⟨action, ⟨[], fun _ => [], FileSize.knownSize, []⟩⟩

def freshDaemon : Daemon :=
  ⟨CharArray.zero 300, daemonSettings, TaskQueue.daemonRepos⟩

theorem settings_agree_port20001 :
    ∃ final, receiveAll freshDaemon (addThenSelectTcp 20001) = .ok final ∧
      final.settings = ⟨.tcp, 20001, 30000⟩ := by
  obtain ⟨final, hfinal, hagree⟩ :=
    settings_agree_iff freshDaemon (addThenSelectTcp 20001) (by decide)
  refine ⟨final, hfinal, hagree.mpr ⟨?_, ?_⟩⟩
  · have hlast := (@lastPortKept_concat_select .tcp 0#8
      [.addFile [0x61#8] []] 20001 []).mpr (Or.inl (by decide))
    exact hlast
  · intro front port heap back hsplit
    have hmem : GuiAction.selectMode .udp port heap ∈
        (addThenSelectTcp 20001).map GuiEvent.action := by
      rw [hsplit]
      exact List.mem_append_right front List.mem_cons_self
    simp [addThenSelectTcp] at hmem

/-- Port 80 is sent without its byte; the daemon takes the blank that the
add-file message left behind. -/
theorem settings_port80_becomes_32 :
    (∀ event ∈ addThenSelectTcp 80, event.action.Valid) ∧
      (receiveAll freshDaemon (addThenSelectTcp 80) >>=
        fun final => .ok final.settings) = .ok ⟨.tcp, 32, 30000⟩ ∧
      chosen daemonSettings ((addThenSelectTcp 80).map GuiEvent.action) =
        ⟨.tcp, 80, 30000⟩ := by
  refine ⟨by decide, by decide +kernel, by decide⟩

end SyncAnywhere.SettingsAgreement
