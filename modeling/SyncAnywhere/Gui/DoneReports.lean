import SyncAnywhere.Daemon.ProgressReports
import SyncAnywhere.Gui.ProgressBar
import SyncAnywhere.Gui.ReportDelivery

/-!
# Completed transfers on the progress bar

The final report of a transfer carries its duration in place of the file
length.  The progress bar takes a report for a final one when that number is
less than the number of bytes sent, and a duration of zero for none.  On the way
to the bar the report passes the listener, which reads it back when its port has
no zero byte and its two numbers end.
-/

namespace SyncAnywhere.DoneReports

open SyncAnywhere.CMemory
open SyncAnywhere.ByteStream
open SyncAnywhere.SingleFloat
open SyncAnywhere.FilePaths
open SyncAnywhere.TaskQueue
open SyncAnywhere.Messages
open SyncAnywhere.ProgressMessage
open SyncAnywhere.FileSender
open SyncAnywhere.ProgressReports
open SyncAnywhere.GuiListener
open SyncAnywhere.ReportDelivery
open SyncAnywhere.ProgressBar

/-- A NUL follows the text in `buf_tmp`: the one behind the bar, or one among
the bytes that nothing initialised. -/
def Ended (rest : CharArray 40) (text : List Byte) : Prop :=
  text.length ≤ progressBarWidth ∨
    0#8 ∈ rest.bytes.drop (text.length - (progressBarWidth + 1))

instance (rest : CharArray 40) (text : List Byte) :
    Decidable (Ended rest text) :=
  inferInstanceAs (Decidable (_ ∨ _))

/-- The finished branch is taken, and the label shows 100%, `Done` and the
duration. -/
def ShownAsDone (rest : CharArray 40) (args : ProgressArgs) (duration : ℕ) :
    Prop :=
  ∃ shown, setProgressBar roundSingle rest args = .ok shown ∧
    shown.finished = true ∧ shown.perBuf = doneText duration ∧
      doneText duration <:+: shown.progressBarBuf

theorem zero_mem_overlay_iff {rest : CharArray 40} {text : List Byte}
    (htext : NulFree text) :
    0#8 ∈ overlay text (fullBar rest) ↔ Ended rest text := by
  have hnot : 0#8 ∉ text := fun hmem => htext 0#8 hmem rfl
  rw [overlay, List.mem_append, or_iff_right hnot, fullBar, Ended]
  by_cases hshort : text.length ≤ progressBarWidth
  · rw [List.drop_append_of_le_length (by simpa using hshort)]
    simp [hshort]
  · obtain ⟨beyond, hbeyond⟩ := Nat.exists_eq_add_of_lt (not_le.mp hshort)
    have hlength : (List.replicate progressBarWidth 0x3e#8).length =
        progressBarWidth := List.length_replicate
    have hdrop : text.length - (progressBarWidth + 1) = beyond := by omega
    rw [or_iff_right hshort, hdrop, hbeyond, Nat.add_assoc,
      ← List.drop_drop, List.drop_left' hlength, List.drop_succ_cons]

/-- The duration text is the end of the text, which begins the bar. -/
theorem doneText_infix {rest : CharArray 40} {fileName : List Byte}
    {port duration : ℕ}
    (hfree : NulFree (infoText fileName port (doneText duration))) :
    doneText duration <:+: markup (cstr (overlay
      (infoText fileName port (doneText duration)) (fullBar rest))) := by
  rw [overlay, cstr_append hfree, infoText, markup]
  refine List.IsInfix.trans ?_ (List.prefix_append _ _).isInfix
  refine List.IsInfix.trans ?_ (List.suffix_append _ _).isInfix
  exact (List.suffix_append _ _).isInfix.trans (List.prefix_append _ _).isInfix

/-- A report of `sent` bytes and a duration is shown as done exactly when the
duration is positive and less than `sent`, and the text ends in `buf_tmp`. -/
theorem shownAsDone_iff {rest : CharArray 40} {args : ProgressArgs}
    {sent duration : ℕ} (hsent : args.bytesSent = sent)
    (hduration : args.fileLength = duration) (hsmall : sent < 2 ^ 31)
    (hfree : NulFree args.fileName) (hname : args.fileName.length < 32)
    (hport : args.port < 2 ^ 32) :
    ShownAsDone rest args duration ↔
      0 < duration ∧ duration < sent ∧
        Ended rest (infoText args.fileName args.port (doneText duration)) := by
  by_cases hlt : duration < sent
  · have hshow := @setProgressBar_of_finished rest args sent duration hsent
      hduration hlt hsmall hfree hname hport
    by_cases hpos : 0 < duration
    · have htext : NulFree (infoText args.fileName args.port
          (doneText duration)) := by
        rw [← perText_done hpos]
        exact nulFree_infoText args.port hfree (nulFree_perText duration)
      simp only [perText_done hpos, zero_mem_overlay_iff htext] at hshow
      by_cases hends : Ended rest
          (infoText args.fileName args.port (doneText duration))
      · rw [if_pos hends] at hshow
        exact iff_of_true ⟨_, hshow, rfl, rfl, doneText_infix htext⟩
          ⟨hpos, hlt, hends⟩
      · rw [if_neg hends] at hshow
        refine iff_of_false ?_ fun hall => hends hall.2.2
        rintro ⟨shown, hshown, -⟩
        rw [hshow] at hshown
        contradiction
    · obtain rfl : duration = 0 := Nat.eq_zero_of_not_pos hpos
      refine iff_of_false ?_ fun hall => hpos hall.1
      rintro ⟨shown, hshown, -, hper, -⟩
      have hplain : shown.perBuf = literal "(100%)" := by
        rw [hshow] at hshown
        split at hshown
        · rw [← CResult.ok.inj hshown]
          exact perText_zero
        · contradiction
      rw [hplain] at hper
      exact absurd hper (by decide)
  · refine iff_of_false ?_ fun hall => hlt hall.2.1
    rintro ⟨shown, hshown, hfinished, -⟩
    rw [finished_of_setProgressBar hshown, decide_eq_true_iff, FinishedTask,
      hsent, hduration] at hfinished
    exact hlt (by exact_mod_cast hfinished)

/-! ## The final report of a transfer -/

section Transfer

variable {filename : FileName} {file : List Byte}
variable {calls : SendCalls filename file}

/-- The measured duration in whole seconds. -/
def duration (calls : SendCalls filename file) : ℕ :=
  (calls.finish - calls.start).toNat

/-- The duration text has a place on the bar: it is that of a positive
duration, less than the number of bytes sent. -/
def DoneCondition (calls : SendCalls filename file) (port : BitVec 32)
    (rest : CharArray 40) : Prop :=
  0 < duration calls ∧ duration calls < file.length ∧
    Ended rest
      (infoText filename.bytes port.toNat (doneText (duration calls)))

/-- The turn of the listener for the report ends in a label that shows it as
done. -/
def ListenerShowsDone (pad : Byte) (buf : MsgBuffer) (event : ReportEvent)
    (rest : CharArray 40) (duration : ℕ) : Prop :=
  ∃ received args,
    guiListen event.leftovers buf (some (event.datagram pad)) =
        .ok (received, some args) ∧
      ShownAsDone rest args duration

theorem listenerShowsDone_iff {pad : Byte} (hpad : pad ≠ 0#8)
    {buf : MsgBuffer} {event : ReportEvent} (hvalid : event.Valid pad)
    (hwhole : SentWhole event.report.port) (hends : NumbersEnd event)
    (rest : CharArray 40) (duration : ℕ) :
    ListenerShowsDone pad buf event rest duration ↔
      ShownAsDone rest (reportArgs event.report) duration := by
  obtain ⟨received, hreceived⟩ := exists_receiveDatagram buf hvalid.short
  have hturn := (guiListen_eq_ok_iff hpad hvalid hreceived).mpr
    ((readable_iff_of_sentWhole hvalid hwhole).mpr hends)
  constructor
  · rintro ⟨other, args, hargs, hshown⟩
    rw [hturn] at hargs
    obtain rfl : reportArgs event.report = args :=
      Option.some_inj.mp (congrArg Prod.snd (CResult.ok.inj hargs))
    exact hshown
  · intro hshown
    exact ⟨received, _, hturn, hshown⟩

/-- The final report of a completed transfer is shown as done exactly under
`DoneCondition`, read off its fields or received by the listener. -/
structure FinalReportShown (calls : SendCalls filename file)
    (port : BitVec 32) (rest : CharArray 40) (report : ProgressReport) :
    Prop where
  bar : ShownAsDone rest (reportArgs report) (duration calls) ↔
    DoneCondition calls port rest
  listener : ∀ pad buf event, event.report = report → pad ≠ 0#8 →
    event.Valid pad → SentWhole port → NumbersEnd event →
      (ListenerShowsDone pad buf event rest (duration calls) ↔
        DoneCondition calls port rest)

theorem completed_shownAsDone_iff {period : BitVec 32} {destIp : List Byte}
    {port : BitVec 32} {repos : SyncRepos} {final : SendState}
    (hcompleted : Completed period destIp port calls repos final)
    (hfull : SentInFull calls) (hsize : file.length < 2 ^ 31)
    (hduration : 0 ≤ (calls.finish - calls.start).toInt)
    (rest : CharArray 40) :
    ∃ report, final.reports.getLast? = some report ∧
      FinalReportShown calls port rest report := by
  obtain ⟨-, hwritten, hall⟩ := hfull
  refine ⟨_, by rw [hcompleted.reports, List.getLast?_concat], ?_⟩
  have htotal : countedTotal calls.turns = file.length := by
    rw [countedTotal_of_full hwritten, hall]
  have hsent : (BitVec.ofNat 32 (countedTotal calls.turns)).toInt =
      file.length := by
    rw [htotal, toInt_counter (by omega), if_pos hsize]
  have hseconds : (calls.finish - calls.start).toInt = duration calls :=
    BitVec.toInt_eq_toNat_of_lt (BitVec.toInt_pos_iff.mp hduration)
  have hbar := @shownAsDone_iff rest (reportArgs
    ⟨BitVec.ofNat 32 (countedTotal calls.turns), calls.finish - calls.start,
      filename.bytes, port, destIp⟩) file.length (duration calls) hsent
    hseconds hsize filename.nulFree filename.length_lt port.isLt
  refine ⟨hbar, ?_⟩
  intro pad buf event hreport hpad hvalid hwhole hends
  have hport : SentWhole event.report.port := by
    rw [hreport]
    exact hwhole
  rw [listenerShowsDone_iff hpad hvalid hport hends, hreport]
  exact hbar

/-- The final report of a transfer in full, which either sender sends, is shown
as done exactly under `DoneCondition`. -/
theorem senders_shownAsDone_iff (hfull : SentInFull calls)
    (hsize : file.length < 2 ^ 31)
    (hduration : 0 ≤ (calls.finish - calls.start).toInt) (home : SyncHome)
    (destIp : List Byte) (port : BitVec 32) (repos : SyncRepos)
    (rest : CharArray 40) (final : SendState) :
    (Completes 1500#32 calls →
      tcpsendFileToRemotePeer home destIp port calls repos = .ok final →
        ∃ report, final.reports.getLast? = some report ∧
          FinalReportShown calls port rest report) ∧
      (Completes 500#32 calls →
        udpsendFileToRemotePeer home destIp port calls repos = .ok final →
          ∃ report, final.reports.getLast? = some report ∧
            FinalReportShown calls port rest report) := by
  constructor
  · intro hcompletes hfinal
    exact completed_shownAsDone_iff
      (completed_of_completes repos hcompletes hfinal) hfull hsize hduration
      rest
  · intro hcompletes hfinal
    exact completed_shownAsDone_iff
      (completed_of_completes repos hcompletes hfinal) hfull hsize hduration
      rest

end Transfer

/-- A file of two bytes is sent in full, beginning in second 0. -/
def twoByteCalls (finish : BitVec 32) :
    SendCalls sampleName.toFileName [0x62#8, 0x63#8] :=
  { oneChunkCalls sampleName.toFileName
      ⟨[0x62#8, 0x63#8], by decide, by decide⟩ 2 (by decide) (by decide) with
    finish := finish }

theorem twoByteCalls_full (finish : BitVec 32) :
    SentInFull (twoByteCalls finish) :=
  ⟨Or.inr rfl, List.forall_mem_singleton.mpr rfl, rfl⟩

theorem twoByteCalls_completes (finish period : BitVec 32) :
    Completes period (twoByteCalls finish) :=
  ⟨rfl, ⟨⟨rfl, fun _ => rfl⟩, trivial⟩, rfl⟩

theorem senders_shownAsDone_oneSecond :
    ∃ final report, tcpsendFileToRemotePeer sampleHome [] 20000#32
        (twoByteCalls 1#32) daemonRepos = .ok final ∧
      final.reports.getLast? = some report ∧
      ShownAsDone (CharArray.zero 40) (reportArgs report) 1 := by
  obtain ⟨final, hfinal⟩ := @exists_sampleRun _ (twoByteCalls 1#32) rfl 1500#32
    daemonRepos
  obtain ⟨report, hreport, hshown⟩ := (senders_shownAsDone_iff
    (twoByteCalls_full 1#32) (by decide) (by decide) sampleHome [] 20000#32
    daemonRepos (CharArray.zero 40) final).1 (twoByteCalls_completes _ _) hfinal
  have hcondition : DoneCondition (twoByteCalls 1#32) 20000#32
      (CharArray.zero 40) := by
    unfold DoneCondition
    decide
  exact ⟨final, report, hfinal, hreport, hshown.bar.mpr hcondition⟩

/-- The same transfer within one second: 100%, but neither `Done` nor the
duration. -/
theorem sameSecond_not_shownAsDone :
    ∃ final report, tcpsendFileToRemotePeer sampleHome [] 20000#32
        (twoByteCalls 0#32) daemonRepos = .ok final ∧
      final.reports.getLast? = some report ∧
      ¬ ShownAsDone (CharArray.zero 40) (reportArgs report) 0 ∧
      ∃ shown, setProgressBar roundSingle (CharArray.zero 40)
          (reportArgs report) = .ok shown ∧
        shown.finished = true ∧ shown.perBuf = literal "(100%)" := by
  obtain ⟨final, hfinal⟩ := @exists_sampleRun _ (twoByteCalls 0#32) rfl 1500#32
    daemonRepos
  have hcompleted := completed_of_completes daemonRepos
    (twoByteCalls_completes 0#32 1500#32) hfinal
  have hlast : final.reports.getLast? =
      some ⟨2#32, 0#32, [0x61#8], 20000#32, []⟩ := by
    rw [hcompleted.reports, List.getLast?_concat]
    rfl
  have hbranch := @setProgressBar_of_finished (CharArray.zero 40)
    (reportArgs ⟨2#32, 0#32, [0x61#8], 20000#32, []⟩) 2 0 rfl rfl (by decide)
    (by decide) (by decide) (by decide) (by decide)
  have hshow := hbranch.trans (if_pos (by decide))
  refine ⟨final, _, hfinal, hlast, ?_, _, hshow, rfl, perText_zero⟩
  rintro ⟨shown, hshown, -, hper, -⟩
  rw [hshow] at hshown
  rw [← CResult.ok.inj hshown] at hper
  exact absurd hper (by decide)

end SyncAnywhere.DoneReports
