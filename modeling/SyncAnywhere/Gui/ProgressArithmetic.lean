import SyncAnywhere.Gui.SoundReports

/-!
# The numbers of the progress bar

`set_progress_bar` divides the two numbers of a report: the bytes counted and
the file size, or, in the final report, the duration.  All of them are 32-bit
integers.  The results here say for which numbers the quotient has a percentage
and a bar, and for which transfers that is so in every report.
-/

namespace SyncAnywhere.ProgressArithmetic

open SyncAnywhere.CMemory
open SyncAnywhere.ByteStream
open SyncAnywhere.SingleFloat
open SyncAnywhere.FilePaths
open SyncAnywhere.TaskQueue
open SyncAnywhere.FileSender
open SyncAnywhere.LostReports
open SyncAnywhere.ProgressReports
open SyncAnywhere.SoundReports
open SyncAnywhere.SenderEquivalence
open SyncAnywhere.GuiListener
open SyncAnywhere.ReportDelivery
open SyncAnywhere.ProgressBar

/-! ## One call -/

/-- With exact quotients: nothing is divided by zero, the percentage is one, and
the fill loop stays inside the 64 cells and so inside `buf_tmp`. -/
def DrawsSafely (args : ProgressArgs) : Prop :=
  ∃ percentage cells, barNumbers id args = .ok (percentage, cells) ∧
    0 ≤ percentage ∧ percentage ≤ 100 ∧ cells.toNat ≤ progressBarWidth ∧
      ∀ rest, ∃ bufTmp, fillCells 0 cells.toNat (emptyBar rest) = .ok bufTmp

/-- The condition on two numbers of a report. -/
def Drawable (sent length : ℤ) : Prop :=
  if length < sent then sent ≠ 0
  else 0 < length ∧ -length < 100 * sent ∨
    length < 0 ∧ 101 * length < 100 * sent

instance (sent length : ℤ) : Decidable (Drawable sent length) := by
  unfold Drawable
  infer_instance

theorem fillCells_inBounds {cells : ℕ} (hcells : cells ≤ progressBarWidth)
    (rest : CharArray 40) :
    ∃ bufTmp, fillCells 0 cells (emptyBar rest) = .ok bufTmp := by
  have hfits : 0 + cells ≤ (emptyBar rest).length := by
    simp only [emptyBar, List.length_append, List.length_replicate]
    omega
  exact ⟨_, fillCells_of_le hfits⟩

/-- The percentage decides: where it is one, the bar fits. -/
theorem drawsSafely_iff_quotient {args : ProgressArgs} {length : ℤ}
    (hlength : length = if FinishedTask args then args.bytesSent
      else args.fileLength) :
    DrawsSafely args ↔ length ≠ 0 ∧
      -1 < 100 * ((args.bytesSent : ℚ) / length) ∧
        100 * ((args.bytesSent : ℚ) / length) < 101 := by
  set per : ℚ := (args.bytesSent : ℚ) / length with hper
  have hbetween := @toInt_between_iff (100 * per) 100 (by decide) (by decide)
  norm_num at hbetween
  by_cases hzero : length = 0
  · have hundefined : barNumbers id args = .undefined := by
      rw [barNumbers, ← hlength]
      exact if_pos hzero
    simp [DrawsSafely, hundefined, hzero]
  · have hnumbers : barNumbers id args =
        toInt (100 * per) >>= fun percentage =>
          toInt (progressBarWidth * per) >>= fun cells =>
            pure (percentage, cells) := by
      rw [barNumbers, ← hlength]
      exact if_neg hzero
    rw [and_iff_right hzero, ← hbetween, DrawsSafely, hnumbers]
    constructor
    · rintro ⟨percentage, cells, hok, hlow, hhigh, -⟩
      rw [CResult.bind_eq_ok_iff] at hok
      obtain ⟨whole, hwhole, hrest⟩ := hok
      rw [CResult.bind_eq_ok_iff] at hrest
      obtain ⟨_, -, hpure⟩ := hrest
      cases hpure
      exact ⟨percentage, hwhole, hlow, hhigh⟩
    · rintro ⟨percentage, hpercentage, hlow, hhigh⟩
      obtain ⟨habove, hbelow⟩ :=
        hbetween.mp ⟨percentage, hpercentage, hlow, hhigh⟩
      have hcellsBetween := @toInt_between_iff (progressBarWidth * per) 64
        (by decide) (by decide)
      obtain ⟨cells, hcells, -, hwidth⟩ := hcellsBetween.mpr (by
        norm_num [progressBarWidth]
        constructor <;> linarith)
      have hcount : cells.toNat ≤ progressBarWidth := by
        rw [progressBarWidth]
        omega
      refine ⟨percentage, cells, ?_, hlow, hhigh, hcount,
        fillCells_inBounds hcount⟩
      rw [hpercentage, CResult.ok_bind, hcells]
      rfl

/-- At most all is sent: the percentage is not above 100, and it is cut to zero
as long as it is above minus one. -/
theorem quotient_iff_of_pos {sent length : ℤ} (hpos : 0 < length)
    (hle : sent ≤ length) :
    (-1 < 100 * ((sent : ℚ) / length) ∧ 100 * ((sent : ℚ) / length) < 101) ↔
      -length < 100 * sent := by
  have hpos' : (0 : ℚ) < length := by exact_mod_cast hpos
  have hquotient : (sent : ℚ) / length ≤ 1 :=
    (div_le_one hpos').mpr (by exact_mod_cast hle)
  have hbound : -1 < 100 * ((sent : ℚ) / length) ↔ -length < 100 * sent := by
    rw [← mul_div_assoc, lt_div_iff₀ hpos', neg_one_mul]
    exact_mod_cast Iff.rfl
  rw [← hbound]
  exact and_iff_left (by linarith)

/-- Both numbers are negative: the percentage is positive, and it is cut to 100
as long as it is below 101. -/
theorem quotient_iff_of_neg {sent length : ℤ} (hneg : length < 0)
    (hle : sent ≤ length) :
    (-1 < 100 * ((sent : ℚ) / length) ∧ 100 * ((sent : ℚ) / length) < 101) ↔
      101 * length < 100 * sent := by
  have hneg' : (length : ℚ) < 0 := by exact_mod_cast hneg
  have hsent : (sent : ℚ) < 0 := by exact_mod_cast hle.trans_lt hneg
  have hquotient : 0 < (sent : ℚ) / length :=
    div_pos_of_neg_of_neg hsent hneg'
  have hbound : 100 * ((sent : ℚ) / length) < 101 ↔
      101 * length < 100 * sent := by
    rw [← mul_div_assoc, div_lt_iff_of_neg hneg']
    exact_mod_cast Iff.rfl
  rw [← hbound]
  exact and_iff_right (by linarith)

/-- Spec of one call. -/
theorem drawsSafely_iff {args : ProgressArgs} :
    DrawsSafely args ↔ Drawable args.bytesSent args.fileLength := by
  rw [Drawable]
  by_cases hfinished : args.fileLength < args.bytesSent
  · have hlength : args.bytesSent = if FinishedTask args then args.bytesSent
        else args.fileLength := (if_pos hfinished).symm
    rw [drawsSafely_iff_quotient hlength, if_pos hfinished]
    apply and_iff_left_of_imp
    intro hsent
    have hone : (args.bytesSent : ℚ) / args.bytesSent = 1 :=
      div_self (by exact_mod_cast hsent)
    rw [hone]
    norm_num
  · have hlength : args.fileLength = if FinishedTask args then args.bytesSent
        else args.fileLength := (if_neg hfinished).symm
    have hle := not_lt.mp hfinished
    rw [drawsSafely_iff_quotient hlength, if_neg hfinished]
    rcases lt_trichotomy args.fileLength 0 with hneg | hzero | hpos
    · rw [quotient_iff_of_neg hneg hle]
      simp [hneg, hneg.ne, hneg.not_gt]
    · simp [hzero]
    · rw [quotient_iff_of_pos hpos hle]
      simp [hpos, hpos.ne', hpos.not_gt]

/-- A count that is not negative goes wrong only when there is nothing to show,
and nothing to divide by. -/
theorem drawable_iff_of_nonneg {sent length : ℤ} (hsent : 0 ≤ sent) :
    Drawable sent length ↔ 0 < sent ∨ 0 < length := by
  rw [Drawable]
  by_cases hfinished : length < sent
  · rw [if_pos hfinished]
    omega
  · rw [if_neg hfinished]
    omega

/-! ## All reports of a transfer -/

/-- A number of bytes as the counters of the sender hold it. -/
def asInt (count : ℕ) : ℤ :=
  (BitVec.ofNat 32 count).toInt

section Transfer

variable {filename : FileName} {file : List Byte}

/-- The condition on the reports of a transfer that arrive: `byteSend` against
the file size in the loop, and against the duration at the end. -/
structure DrawableRun (period : BitVec 32)
    (calls : SendCalls filename file) : Prop where
  inLoop : ∀ reads, Heard period 0 calls.turns reads →
    Drawable (asInt (countedTotal (calls.turns.take reads)))
      calls.fileSize.toInt
  atEnd : Completes period calls →
    Drawable (asInt (countedTotal calls.turns))
      (calls.finish - calls.start).toInt

variable {calls : SendCalls filename file} {period : BitVec 32}
variable {home : SyncHome} {destIp : List Byte} {port : BitVec 32}
variable {repos : SyncRepos} {final : SendState}

theorem mem_reports_iff
    (hfinal : sendFileToRemotePeer period home destIp port calls repos =
      .ok final) {report : ProgressReport} :
    report ∈ final.reports ↔
      (∃ reads, Heard period 0 calls.turns reads ∧
        report = ⟨BitVec.ofNat 32 (countedTotal (calls.turns.take reads)),
          calls.fileSize, filename.bytes, port, destIp⟩) ∨
      Completes period calls ∧
        report = ⟨BitVec.ofNat 32 (countedTotal calls.turns),
          calls.finish - calls.start, filename.bytes, port, destIp⟩ := by
  rw [reports_of_run repos hfinal, List.mem_append, List.mem_map]
  apply or_congr
  · constructor
    · rintro ⟨point, hpoint, rfl⟩
      obtain ⟨reads, hreads, rfl⟩ := mem_heardPoints_iff.mp hpoint
      exact ⟨reads, hreads, by rw [BitVec.zero_add]⟩
    · rintro ⟨reads, hreads, rfl⟩
      exact ⟨_, mem_heardPoints_iff.mpr ⟨reads, hreads, rfl⟩, by
        rw [BitVec.zero_add]⟩
  · rw [completes_iff]
    by_cases hcompletes : lostAfter period calls = none ∧ ¬ Signalled calls
    · rw [if_pos hcompletes, List.mem_singleton, and_iff_right hcompletes]
    · rw [if_neg hcompletes]
      exact iff_of_false List.not_mem_nil fun hboth => hcompletes hboth.1

theorem reports_drawSafely_iff
    (hfinal : sendFileToRemotePeer period home destIp port calls repos =
      .ok final) :
    (∀ report ∈ final.reports, DrawsSafely (reportArgs report)) ↔
      DrawableRun period calls := by
  simp only [mem_reports_iff hfinal, drawsSafely_iff]
  constructor
  · intro hall
    constructor
    · exact fun reads hreads => hall _ (Or.inl ⟨reads, hreads, rfl⟩)
    · exact fun hcompletes => hall _ (Or.inr ⟨hcompletes, rfl⟩)
  · rintro hrun report (⟨reads, hreads, rfl⟩ | ⟨hcompletes, rfl⟩)
    · exact hrun.inLoop reads hreads
    · exact hrun.atEnd hcompletes

/-- For a file below 2 GiB whose size was found only the final report can go
wrong: when nothing was counted and no second has passed. -/
theorem drawableRun_iff_of_small (hsize : file.length < 2 ^ 31)
    (hknown : calls.fileSize = BitVec.ofNat 32 file.length) :
    DrawableRun period calls ↔
      (Completes period calls → 0 < countedTotal calls.turns ∨
        0 < (calls.finish - calls.start).toInt) := by
  have hcounted : ∀ reads, asInt (countedTotal (calls.turns.take reads)) =
      countedTotal (calls.turns.take reads) := by
    intro reads
    have hlt := @countedTotal_take_lt _ _ calls hsize reads
    rw [asInt, toInt_counter (by omega), if_pos hlt]
  have hdrawable : ∀ reads length,
      Drawable (asInt (countedTotal (calls.turns.take reads))) length ↔
        0 < countedTotal (calls.turns.take reads) ∨ 0 < length := by
    intro reads length
    rw [hcounted, drawable_iff_of_nonneg (Int.natCast_nonneg _)]
    exact_mod_cast Iff.rfl
  have hend := hdrawable calls.turns.length (calls.finish - calls.start).toInt
  rw [List.take_length] at hend
  constructor
  · exact fun hrun hcompletes => hend.mp (hrun.atEnd hcompletes)
  · intro hcondition
    constructor
    · intro reads hreads
      -- Something was read, so the file is not empty.
      have hread := (length_le_joined calls.turns).trans
        calls.turns_isPrefix.length_le
      have hfile := hreads.pos.trans_le (hreads.le_length.trans hread)
      apply (hdrawable reads _).mpr
      right
      rw [hknown, toInt_counter (by omega), if_pos hsize]
      exact_mod_cast hfile
    · exact fun hcompletes => hend.mpr (hcondition hcompletes)

/-- Every report the GUI gets from a transfer is drawn safely exactly when the
numbers of each are drawable. -/
theorem progress_drawnSafely_iff
    (hfinal : tcpsendFileToRemotePeer home destIp port calls repos =
      .ok final) :
    (∀ report ∈ final.reports, DrawsSafely (reportArgs report)) ↔
      DrawableRun 1500#32 calls :=
  reports_drawSafely_iff hfinal

end Transfer

theorem progress_drawnSafely_oneByte :
    ∃ final, tcpsendFileToRemotePeer sampleHome [] 20000#32 (byteByByte 1)
        daemonRepos = .ok final ∧
      ∀ report ∈ final.reports, DrawsSafely (reportArgs report) := by
  obtain ⟨final, hfinal⟩ := @exists_sampleRun _ (byteByByte 1) rfl 1500#32
    daemonRepos
  have hrun : DrawableRun 1500#32 (byteByByte 1) :=
    (drawableRun_iff_of_small (by decide) rfl).mpr fun _ => Or.inl (by decide)
  exact ⟨final, hfinal, (progress_drawnSafely_iff hfinal).mpr hrun⟩

/-- The final report of an empty file sent within one second divides zero by
zero. -/
theorem emptyFile_dividesByZero :
    ∃ final report, tcpsendFileToRemotePeer sampleHome [] 20000#32
        (byteByByte 0) daemonRepos = .ok final ∧
      report ∈ final.reports ∧
      barNumbers id (reportArgs report) = .undefined ∧
      ¬ DrawsSafely (reportArgs report) := by
  obtain ⟨final, hfinal⟩ := @exists_sampleRun _ (byteByByte 0) rfl 1500#32
    daemonRepos
  have hcompletes := byteByByte_completes 0 1500#32
  have hreport := (mem_reports_iff hfinal).mpr (Or.inr ⟨hcompletes, rfl⟩)
  refine ⟨final, _, hfinal, hreport, rfl, ?_⟩
  rw [drawsSafely_iff]
  decide

/-- A file of 5 GB, 3 GB of which are sent. -/
example : ¬ Drawable (asInt 3000000000) (asInt 5000000000) := by
  decide

end SyncAnywhere.ProgressArithmetic
