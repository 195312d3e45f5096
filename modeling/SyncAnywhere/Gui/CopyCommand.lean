import SyncAnywhere.Core.ShellWords
import SyncAnywhere.Gui.UnsyncList

/-!
# The command that copies a chosen file

`copy_file_to_apphome` prints the chosen path and its place in the sync home
into a command for `system`, each between double quotes and with no byte of it
escaped.  A shell reads back the two paths exactly when double quotes protect
both as they are.
-/

namespace SyncAnywhere.CopyCommand

open SyncAnywhere.CMemory
open SyncAnywhere.FilePaths
open SyncAnywhere.Messages
open SyncAnywhere.Numeral
open SyncAnywhere.ShellWords
open SyncAnywhere.UnsyncList

def cp : List Byte := "cp".toList.map charByte

/-- The string in `cmdstr` when `system` is called. -/
def systemCommand (home : SyncHome) (srcFilepath : List Byte) :
    CResult (List Byte) := do
  let destFilepath ← sprintfFilepath home 200 (basename srcFilepath)
  let cmdstr ← sprintf (List.replicate 400 0#8)
    (copyCommand srcFilepath destFilepath)
  pure (cstr cmdstr)

theorem copyFileToApphome_eq_bind (home : SyncHome)
    (srcFilepath : List Byte) :
    copyFileToApphome home srcFilepath =
      systemCommand home srcFilepath >>= fun _ => pure () := by
  simp only [copyFileToApphome, systemCommand, bind_assoc, pure_bind]

/-- `cp` and the two paths it gets. -/
def copyWords (home : SyncHome) (srcFilepath : List Byte) :
    List (List Byte) :=
  [cp, srcFilepath, home.file (basename srcFilepath)]

theorem copyCommand_eq_commandLine (srcFilepath destFilepath : List Byte) :
    copyCommand srcFilepath destFilepath =
      commandLine cp [srcFilepath, destFilepath] := by
  simp [copyCommand, commandLine, cp, charByte, blank, dquote]

theorem nulFree_copyCommand {srcFilepath destFilepath : List Byte}
    (hsrc : NulFree srcFilepath) (hdest : NulFree destFilepath) :
    NulFree (copyCommand srcFilepath destFilepath) := by
  have hopen : NulFree [0x63#8, 0x70#8, 0x20#8, 0x22#8] := by decide
  have hbetween : NulFree [0x22#8, 0x20#8, 0x22#8] := by decide
  have hclose : NulFree [0x22#8] := by decide
  exact (((hopen.append hsrc).append hbetween).append hdest).append hclose

/-- Nothing of the command is cut off or changed on the way to the shell. -/
theorem systemCommand_eq_ok_iff {home : SyncHome}
    {srcFilepath command : List Byte} (hfree : NulFree srcFilepath) :
    systemCommand home srcFilepath = .ok command ↔
      (home.file (basename srcFilepath)).length < 200 ∧
        command.length < 400 ∧
        command = commandLine cp
          [srcFilepath, home.file (basename srcFilepath)] := by
  have hname := nulFree_basename hfree
  rw [systemCommand, sprintfFilepath_eq home hname, length_file]
  by_cases hdest : home.path.length + (basename srcFilepath).length + 1 < 200
  · rw [if_pos hdest, CResult.ok_bind, sprintf, List.length_replicate,
      ← copyCommand_eq_commandLine]
    by_cases hcmd : (copyCommand srcFilepath
        (home.file (basename srcFilepath))).length < 400
    · have hcstr := cstr_printed
        (nulFree_copyCommand hfree (nulFree_file home hname))
        (List.replicate 400 0#8)
      rw [if_pos hcmd, CResult.ok_bind, hcstr]
      constructor
      · intro heq
        cases heq
        exact ⟨hdest, hcmd, rfl⟩
      · rintro ⟨-, -, rfl⟩
        rfl
    · rw [if_neg hcmd]
      constructor
      · intro heq
        contradiction
      · rintro ⟨-, hlength, rfl⟩
        exact absurd hlength hcmd
  · rw [if_neg hdest]
    constructor
    · intro heq
      contradiction
    · exact fun hfits => absurd hfits.1 hdest

/-- Double quotes protect the destination when they protect the sync home with
the slash behind it and the name. -/
theorem quotable_file_iff (home : SyncHome) (name : List Byte) :
    Quotable (home.file name) ↔
      Quotable (home.path ++ [0x2f#8]) ∧ Quotable name :=
  quotable_append (by decide)

/-- The words are the ones meant exactly when neither path has a double quote,
a dollar sign, a backquote, or a backslash that double quotes take away. -/
theorem copyCommand_words_iff {home : SyncHome}
    {srcFilepath command : List Byte} (hfree : NulFree srcFilepath)
    (hcommand : systemCommand home srcFilepath = .ok command) :
    shellWords command = some (copyWords home srcFilepath) ↔
      Quotable srcFilepath ∧ Quotable (home.path ++ [0x2f#8]) := by
  obtain ⟨-, -, rfl⟩ := (systemCommand_eq_ok_iff hfree).mp hcommand
  rw [copyWords, shellWords_commandLine (by decide) (by decide)]
  simp only [List.forall_mem_cons, quotable_file_iff]
  constructor
  · rintro ⟨hsrc, ⟨hhome, -⟩, -⟩
    exact ⟨hsrc, hhome⟩
  · rintro ⟨hsrc, hhome⟩
    have hname := quotable_of_suffix hsrc (basename_isSuffix srcFilepath)
    exact ⟨hsrc, ⟨hhome, hname⟩, fun _ hmem => absurd hmem List.not_mem_nil⟩

theorem systemCommand_sampleName :
    systemCommand sampleHome sampleName.bytes = .ok
      (commandLine cp [sampleName.bytes, sampleHome.file sampleName.bytes]) :=
  (systemCommand_eq_ok_iff sampleName.nulFree).mpr
    ⟨by decide, by decide, rfl⟩

theorem copyCommand_words_letter :
    shellWords (commandLine cp
      [sampleName.bytes, sampleHome.file sampleName.bytes]) =
        some (copyWords sampleHome sampleName.bytes) :=
  (copyCommand_words_iff sampleName.nulFree systemCommand_sampleName).mpr
    (by decide)

/-- The path `/$x`: the shell puts the value of a variable in its place. -/
def dollarPath : List Byte := [0x2f#8, 0x24#8, 0x78#8]

theorem dollarPath_expanded :
    ¬ ∀ (home : SyncHome) (srcFilepath command : List Byte),
      NulFree srcFilepath → systemCommand home srcFilepath = .ok command →
        shellWords command = some (copyWords home srcFilepath) := by
  intro hall
  have hfree : NulFree dollarPath := by decide
  have hcommand : systemCommand sampleHome dollarPath = .ok
      (commandLine cp [dollarPath, sampleHome.file [0x24#8, 0x78#8]]) :=
    (systemCommand_eq_ok_iff hfree).mpr ⟨by decide, by decide, rfl⟩
  have hwords := hall sampleHome dollarPath _ hfree hcommand
  exact absurd hwords (by decide)

end SyncAnywhere.CopyCommand
