import SyncAnywhere.Core.SingleFloat
import SyncAnywhere.Gui.GuiListener

/-!
# The progress bar

`set_progress_bar` draws a bar of 64 cells behind a text and hands it to the
label.  A report with more bytes sent than its file length is a finished
transfer, whose file length is a duration.
-/

namespace SyncAnywhere.ProgressBar

open SyncAnywhere.CMemory
open SyncAnywhere.Numeral
open SyncAnywhere.SingleFloat
open SyncAnywhere.GuiListener

def progressBarWidth : ℕ := 64

def literal (text : String) : List Byte :=
  text.toList.map charByte

/-- `%d`. -/
def decimalText (value : ℤ) : List Byte :=
  if value < 0 then 0x2d#8 :: digitText 10 value.natAbs
  else digitText 10 value.toNat

def perText (percentage tranferSec : ℤ) : List Byte :=
  if tranferSec = 0 then literal "(" ++ decimalText percentage ++ literal "%)"
  else literal "(" ++ decimalText percentage ++ literal "%,Done," ++
    decimalText tranferSec ++ literal "S)"

def infoText (fileName : List Byte) (port : ℕ) (perBuf : List Byte) :
    List Byte :=
  fileName ++ literal ",port:(" ++ digitText 10 port ++ literal ")," ++ perBuf

def markup (text : List Byte) : List Byte :=
  literal "<span font_style='italic' font='10' color='brown'>" ++ text ++
    literal "</span>"

/-- The branch of a finished task. -/
def FinishedTask (args : ProgressArgs) : Prop :=
  args.fileLength < args.bytesSent

instance (args : ProgressArgs) : Decidable (FinishedTask args) :=
  inferInstanceAs (Decidable (_ < _))

/-- The branch taken, `per_buf`, and the text of the label. -/
structure Shown where
  finished : Bool
  perBuf : List Byte
  progressBarBuf : List Byte
  deriving DecidableEq

/-- The loop that stores `count` times `'>'` from index `i` on. -/
def fillCells : ℕ → ℕ → List Byte → CResult (List Byte)
  | _, 0, bufTmp => .ok bufTmp
  | i, count + 1, bufTmp => do
      let bufTmp ← store bufTmp i 0x3e#8
      fillCells (i + 1) count bufTmp

def memcpy (buffer bytes : List Byte) : CResult (List Byte) :=
  if bytes.length ≤ buffer.length then .ok (overlay bytes buffer)
  else .undefined

/-- `buf_tmp` behind the loop of `strcat`; nothing initialises its last 40
bytes. -/
def emptyBar (rest : CharArray 40) : List Byte :=
  List.replicate progressBarWidth 0x3d#8 ++ 0#8 :: rest.bytes

/-- What follows the branch.  `rounding` is that of the floating point
operations; a quotient by zero is not a number or infinite and has no `int`
value. -/
def drawProgressBar (rounding : ℚ → ℚ) (rest : CharArray 40)
    (args : ProgressArgs) (finished : Bool) (tranferSec fileLength : ℤ) :
    CResult Shown :=
  if fileLength = 0 then .undefined
  else do
    let per := rounding (rounding args.bytesSent / rounding fileLength)
    let percentage ← toInt (rounding (100 * per))
    let perBuf ← sprintf (List.replicate 50 0#8) (perText percentage tranferSec)
    let processInfo ← sprintf (List.replicate 100 0#8)
      (infoText (cstr args.fileName) args.port (cstr perBuf))
    let cells ← toInt (rounding (progressBarWidth * per))
    let bufTmp ← fillCells 0 cells.toNat (emptyBar rest)
    let bufTmp ← memcpy bufTmp (cstr processInfo)
    if 0#8 ∈ bufTmp then
      let progressBarBuf ←
        sprintf (List.replicate 300 0#8) (markup (cstr bufTmp))
      pure ⟨finished, cstr perBuf, cstr progressBarBuf⟩
    else .undefined

def setProgressBar (rounding : ℚ → ℚ) (rest : CharArray 40)
    (args : ProgressArgs) : CResult Shown :=
  if FinishedTask args then
    drawProgressBar rounding rest args true args.fileLength args.bytesSent
  else drawProgressBar rounding rest args false 0 args.fileLength

/-- `percentage`, and the number of turns of the fill loop. -/
def barNumbers (rounding : ℚ → ℚ) (args : ProgressArgs) : CResult (ℤ × ℤ) :=
  let fileLength :=
    if FinishedTask args then args.bytesSent else args.fileLength
  if fileLength = 0 then .undefined
  else do
    let per := rounding (rounding args.bytesSent / rounding fileLength)
    let percentage ← toInt (rounding (100 * per))
    let cells ← toInt (rounding (progressBarWidth * per))
    pure (percentage, cells)

/-- What `set_progress_bar` does with the two numbers. -/
def printBar (rest : CharArray 40) (args : ProgressArgs)
    (numbers : ℤ × ℤ) : CResult Shown := do
  let tranferSec := if FinishedTask args then args.fileLength else 0
  let perBuf ← sprintf (List.replicate 50 0#8) (perText numbers.1 tranferSec)
  let processInfo ← sprintf (List.replicate 100 0#8)
    (infoText (cstr args.fileName) args.port (cstr perBuf))
  let bufTmp ← fillCells 0 numbers.2.toNat (emptyBar rest)
  let bufTmp ← memcpy bufTmp (cstr processInfo)
  if 0#8 ∈ bufTmp then
    let progressBarBuf ←
      sprintf (List.replicate 300 0#8) (markup (cstr bufTmp))
    pure ⟨decide (FinishedTask args), cstr perBuf, cstr progressBarBuf⟩
  else .undefined

theorem sprintf_bind_undefined {A : Type} (buffer text : List Byte) :
    (sprintf buffer text >>= fun _ => (.undefined : CResult A)) =
      .undefined := by
  rw [sprintf]
  by_cases hfits : text.length < buffer.length
  · rw [if_pos hfits]
    rfl
  · rw [if_neg hfits]
    rfl

theorem drawProgressBar_eq_bind (rounding : ℚ → ℚ) (rest : CharArray 40)
    {args : ProgressArgs} {finished : Bool} {tranferSec fileLength : ℤ}
    (hfinished : finished = decide (FinishedTask args))
    (hsec : tranferSec = if FinishedTask args then args.fileLength else 0)
    (hlength : fileLength = if FinishedTask args then args.bytesSent
      else args.fileLength) :
    drawProgressBar rounding rest args finished tranferSec fileLength =
      barNumbers rounding args >>= printBar rest args := by
  rw [drawProgressBar, barNumbers, ← hlength]
  by_cases hzero : fileLength = 0
  · rw [if_pos hzero, if_pos hzero]
    rfl
  · simp only [if_neg hzero, bind_assoc, pure_bind]
    congr 1
    funext percentage
    simp only [printBar, ← hsec, ← hfinished]
    -- The number of cells is computed behind the two `sprintf`.
    obtain ⟨cells, hcells⟩ | hcells := toInt_cases
      (rounding (progressBarWidth *
        rounding (rounding args.bytesSent / rounding fileLength)))
    · simp only [hcells, CResult.ok_bind]
    · simp only [hcells, CResult.undefined_bind, sprintf_bind_undefined]

/-- The two numbers are all that the floating point part leaves. -/
theorem setProgressBar_eq_bind (rounding : ℚ → ℚ) (rest : CharArray 40)
    (args : ProgressArgs) :
    setProgressBar rounding rest args =
      barNumbers rounding args >>= printBar rest args := by
  rw [setProgressBar]
  by_cases hfinished : FinishedTask args
  · rw [if_pos hfinished]
    apply drawProgressBar_eq_bind <;> simp [hfinished]
  · rw [if_neg hfinished]
    apply drawProgressBar_eq_bind <;> simp [hfinished]

/-- What is shown tells which branch was taken. -/
theorem finished_of_setProgressBar {rounding : ℚ → ℚ} {rest : CharArray 40}
    {args : ProgressArgs} {shown : Shown}
    (hshown : setProgressBar rounding rest args = .ok shown) :
    shown.finished = decide (FinishedTask args) := by
  rw [setProgressBar_eq_bind] at hshown
  simp only [CResult.bind_eq_ok_iff, printBar] at hshown
  obtain ⟨_, -, _, -, _, -, _, -, bufTmp, -, hend⟩ := hshown
  by_cases hzero : 0#8 ∈ bufTmp
  · rw [if_pos hzero, CResult.bind_eq_ok_iff] at hend
    obtain ⟨_, -, hpure⟩ := hend
    rw [← CResult.ok.inj hpure]
  · rw [if_neg hzero] at hend
    contradiction

/-! ## A finished transfer -/

theorem fillCells_of_le {i count : ℕ} {bufTmp : List Byte}
    (hfits : i + count ≤ bufTmp.length) :
    fillCells i count bufTmp = .ok
      (bufTmp.take i ++ List.replicate count 0x3e#8 ++
        bufTmp.drop (i + count)) := by
  induction count generalizing i bufTmp with
  | zero => simp [fillCells]
  | succ count ih =>
      have hindex : i < bufTmp.length := by omega
      have hrest : i + 1 + count ≤ (bufTmp.set i 0x3e#8).length := by
        rw [List.length_set]
        omega
      have htake : (bufTmp.set i 0x3e#8).take (i + 1) =
          bufTmp.take i ++ [0x3e#8] := by
        rw [List.take_succ_eq_append_getElem (by simpa using hindex),
          List.take_set_of_le le_rfl, List.getElem_set_self]
      rw [fillCells, store_of_lt 0x3e#8 hindex, CResult.ok_bind, ih hrest,
        htake, List.drop_set_of_lt (by omega), List.replicate_succ,
        List.append_assoc (bufTmp.take i), Nat.add_right_comm]
      rfl

/-- `buf_tmp` of a finished transfer, before the text is copied. -/
def fullBar (rest : CharArray 40) : List Byte :=
  List.replicate progressBarWidth 0x3e#8 ++ 0#8 :: rest.bytes

theorem fillCells_emptyBar (rest : CharArray 40) :
    fillCells 0 progressBarWidth (emptyBar rest) = .ok (fullBar rest) := by
  have hlength : 0 + progressBarWidth ≤ (emptyBar rest).length := by
    simp [emptyBar]
  rw [fillCells_of_le hlength, emptyBar, zero_add, List.drop_left'
    List.length_replicate]
  rfl

theorem length_fullBar (rest : CharArray 40) : (fullBar rest).length = 105 := by
  simp [fullBar, rest.length_bytes, progressBarWidth]

/-- The quotient of a number by itself is one, whatever it is rounded to. -/
theorem per_of_finished {count : ℕ} (hcount : 0 < count) :
    roundSingle (roundSingle count / roundSingle count) = 1 := by
  have hpos : 0 < roundSingle count := roundSingle_pos (by exact_mod_cast hcount)
  rw [div_self hpos.ne']
  exact_mod_cast @roundSingle_natCast 1 (by decide)

/-- The text that says a transfer is done. -/
def doneText (duration : ℕ) : List Byte :=
  literal "(100%,Done," ++ digitText 10 duration ++ literal "S)"

theorem perText_done {duration : ℕ} (hduration : 0 < duration) :
    perText 100 duration = doneText duration := by
  have hne : (duration : ℤ) ≠ 0 := by exact_mod_cast hduration.ne'
  rw [perText, if_neg hne]
  rfl

theorem perText_zero : perText 100 0 = literal "(100%)" := rfl

section Texts

theorem nulFree_perText (duration : ℕ) : NulFree (perText 100 duration) := by
  have hdigits := nulFree_digitText (show 1 < 10 by decide) (by decide) duration
  by_cases hpos : 0 < duration
  · rw [perText_done hpos, doneText]
    exact ((show NulFree (literal "(100%,Done,") by decide).append
      hdigits).append (by decide)
  · rw [Nat.eq_zero_of_not_pos hpos]
    exact perText_zero ▸ (show NulFree (literal "(100%)") by decide)

theorem length_doneText_le {duration : ℕ} (hduration : duration < 2 ^ 31) :
    (doneText duration).length ≤ 23 := by
  have hdigits := @length_digitText_le 10 duration 10 (by decide) (by decide)
    (by omega)
  simp only [doneText, List.length_append]
  change 11 + _ + 2 ≤ 23
  omega

theorem length_perText_le {duration : ℕ} (hduration : duration < 2 ^ 31) :
    (perText 100 duration).length ≤ 23 := by
  by_cases hpos : 0 < duration
  · rw [perText_done hpos]
    exact length_doneText_le hduration
  · rw [Nat.eq_zero_of_not_pos hpos]
    exact (show (literal "(100%)").length ≤ 23 by decide)

theorem nulFree_infoText {fileName perBuf : List Byte} (port : ℕ)
    (hname : NulFree fileName) (hper : NulFree perBuf) :
    NulFree (infoText fileName port perBuf) := by
  have hdigits := nulFree_digitText (show 1 < 10 by decide) (by decide) port
  exact (((hname.append (by decide)).append hdigits).append
    (by decide)).append hper

theorem length_infoText_le {fileName perBuf : List Byte} {port : ℕ}
    (hname : fileName.length < 32) (hport : port < 2 ^ 32)
    (hper : perBuf.length ≤ 23) :
    (infoText fileName port perBuf).length < 100 := by
  have hdigits := @length_digitText_le 10 port 10 (by decide) (by decide)
    (by omega)
  simp only [infoText, List.length_append]
  change _ + 7 + _ + 2 + _ < 100
  omega

theorem nulFree_markup {text : List Byte} (htext : NulFree text) :
    NulFree (markup text) := by
  have hopen : NulFree
      (literal "<span font_style='italic' font='10' color='brown'>") := by
    simp [literal, NulFree, charByte]
  exact (hopen.append htext).append (by decide)

theorem length_markup (text : List Byte) :
    (markup text).length = 50 + text.length + 7 := by
  simp only [markup, List.length_append]
  rfl

end Texts

theorem sprintf_of_lt {size : ℕ} {text : List Byte} (hlength : text.length < size) :
    sprintf (List.replicate size 0#8) text =
      .ok (overlay (text ++ [0#8]) (List.replicate size 0#8)) :=
  if_pos (by rwa [List.length_replicate])

theorem barNumbers_of_finished {args : ProgressArgs} {sent : ℕ}
    (hsent : args.bytesSent = sent) (hpos : 0 < sent)
    (hfinished : FinishedTask args) :
    barNumbers roundSingle args = .ok (100, progressBarWidth) := by
  have hne : (sent : ℤ) ≠ 0 := by omega
  have hper : roundSingle (roundSingle ((sent : ℤ) : ℚ) /
      roundSingle ((sent : ℤ) : ℚ)) = 1 := by
    rw [Int.cast_natCast]
    exact per_of_finished hpos
  have hpercentage : toInt (roundSingle (100 * 1)) = .ok 100 := by
    have hround := @roundSingle_natCast 100 (by decide)
    have hint := @toInt_natCast 100 (by decide)
    rw [mul_one]
    exact_mod_cast (congrArg toInt hround).trans hint
  have hcells : toInt (roundSingle ((progressBarWidth : ℚ) * 1)) =
      .ok progressBarWidth := by
    rw [mul_one, roundSingle_natCast (by decide), toInt_natCast (by decide)]
  simp only [barNumbers, if_pos hfinished, hsent, if_neg hne, hper,
    hpercentage, hcells, CResult.ok_bind]
  rfl

/-- A full bar: the text is shown when a NUL follows it in `buf_tmp`. -/
theorem printBar_of_finished {rest : CharArray 40} {args : ProgressArgs}
    {duration : ℕ} (hfinished : FinishedTask args)
    (hduration : args.fileLength = duration) (hsmall : duration < 2 ^ 31)
    (hfree : NulFree args.fileName) (hname : args.fileName.length < 32)
    (hport : args.port < 2 ^ 32) :
    let bar := overlay
      (infoText args.fileName args.port (perText 100 duration)) (fullBar rest)
    printBar rest args (100, progressBarWidth) =
      if 0#8 ∈ bar then .ok ⟨true, perText 100 duration, markup (cstr bar)⟩
      else .undefined := by
  have hperLength : (perText 100 duration).length ≤ 23 :=
    length_perText_le hsmall
  have hinfoLength := length_infoText_le hname hport hperLength
  intro bar
  have hbarLength : bar.length = 105 := by
    rw [← length_fullBar rest]
    exact length_overlay (by rw [length_fullBar]; omega)
  have hcstr : (cstr bar).length ≤ 105 := by
    rw [← hbarLength]
    exact (List.takeWhile_prefix _).length_le
  simp only [printBar, if_pos hfinished, hduration, cstr_of_nulFree hfree,
    decide_eq_true hfinished]
  rw [sprintf_of_lt (by omega), CResult.ok_bind,
    cstr_printed (nulFree_perText duration), sprintf_of_lt hinfoLength,
    CResult.ok_bind, Int.toNat_natCast, fillCells_emptyBar, CResult.ok_bind,
    cstr_printed
      (nulFree_infoText args.port hfree (nulFree_perText duration)), memcpy,
    if_pos (by rw [length_fullBar]; omega), CResult.ok_bind]
  by_cases hzero : 0#8 ∈ bar
  · have hmarkup : (markup (cstr bar)).length < 300 := by
      rw [length_markup]
      omega
    rw [if_pos hzero, if_pos hzero, sprintf_of_lt hmarkup, CResult.ok_bind,
      cstr_printed (nulFree_markup (nulFree_cstr _))]
    rfl
  · rw [if_neg hzero, if_neg hzero]

/-- Spec of the branch of a finished task. -/
theorem setProgressBar_of_finished {rest : CharArray 40} {args : ProgressArgs}
    {sent duration : ℕ} (hsent : args.bytesSent = sent)
    (hduration : args.fileLength = duration) (hlt : duration < sent)
    (hsmall : sent < 2 ^ 31) (hfree : NulFree args.fileName)
    (hname : args.fileName.length < 32) (hport : args.port < 2 ^ 32) :
    let bar := overlay
      (infoText args.fileName args.port (perText 100 duration)) (fullBar rest)
    setProgressBar roundSingle rest args =
      if 0#8 ∈ bar then .ok ⟨true, perText 100 duration, markup (cstr bar)⟩
      else .undefined := by
  have hfinished : FinishedTask args := by
    rw [FinishedTask, hsent, hduration]
    exact_mod_cast hlt
  rw [setProgressBar_eq_bind,
    barNumbers_of_finished hsent (by omega) hfinished, CResult.ok_bind]
  exact printBar_of_finished hfinished hduration (by omega) hfree hname hport

end SyncAnywhere.ProgressBar
