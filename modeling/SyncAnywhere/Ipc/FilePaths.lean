import SyncAnywhere.Core.Numeral

/-!
# Paths in the sync home

Both ends of a transfer build the path of a file as `"%s/%s"` of the sync home
and the name.
-/

namespace SyncAnywhere.FilePaths

open SyncAnywhere.CMemory
open SyncAnywhere.Numeral

/-- The string in `global_sync_home[200]`. -/
structure SyncHome where
  path : List Byte
  nulFree : NulFree path
  length_lt : path.length < 200

def reposDirName : List Byte :=
  "/SyncAnywhere".toList.map charByte

theorem length_reposDirName : reposDirName.length = 13 := by decide

theorem nulFree_reposDirName : NulFree reposDirName := by decide

/-- A value of `HOME` that leaves room for the directory name behind it. -/
structure HomeEnv where
  value : List Byte
  nulFree : NulFree value
  length_lt : value.length + 13 < 200

/-- What `set_sync_home` prints into `global_sync_home`. -/
def setSyncHome (homeEnv : HomeEnv) : SyncHome where
  path := homeEnv.value ++ reposDirName
  nulFree := homeEnv.nulFree.append nulFree_reposDirName
  length_lt := by
    rw [List.length_append, length_reposDirName]
    exact homeEnv.length_lt

theorem setSyncHome_ne_nil (homeEnv : HomeEnv) :
    (setSyncHome homeEnv).path ≠ [] :=
  List.append_ne_nil_of_right_ne_nil _ (List.cons_ne_nil _ _)

/-- A string in one of the 32-byte name fields: `SyncReposItem.filename` and
the clients' `file_name`. -/
structure FileName where
  bytes : List Byte
  nulFree : NulFree bytes
  length_lt : bytes.length < 32

/-- A file name without a slash and without line ends. -/
structure PlainName extends FileName where
  ne_nil : bytes ≠ []
  slash_notMem : 0x2f#8 ∉ bytes
  lf_notMem : 0x0a#8 ∉ bytes
  cr_notMem : 0x0d#8 ∉ bytes

/-- The text `"%s/%s"` of the sync home and a name. -/
def SyncHome.file (home : SyncHome) (name : List Byte) : List Byte :=
  home.path ++ 0x2f#8 :: name

/-- `sprintf(filepath, "%s/%s", get_sync_home_path(), filename)` into a local
array; the result is the string that `open` and `fopen` get. -/
def sprintfFilepath (home : SyncHome) (size : ℕ) (name : List Byte) :
    CResult (List Byte) := do
  let filepath ← sprintf (List.replicate size 0#8) (home.file name)
  pure (cstr filepath)

theorem length_file (home : SyncHome) (name : List Byte) :
    (home.file name).length = home.path.length + name.length + 1 := by
  simp [SyncHome.file]
  omega

theorem nulFree_file (home : SyncHome) {name : List Byte}
    (hname : NulFree name) : NulFree (home.file name) := by
  apply home.nulFree.append
  intro byte hbyte
  rcases List.mem_cons.mp hbyte with rfl | hmem
  · decide
  · exact hname byte hmem

theorem file_injective (home : SyncHome) :
    Function.Injective home.file := by
  intro left right heq
  exact List.tail_eq_of_cons_eq (List.append_cancel_left heq)

/-- The path is right whenever it fits the array. -/
theorem sprintfFilepath_eq (home : SyncHome) {size : ℕ} {name : List Byte}
    (hname : NulFree name) :
    sprintfFilepath home size name =
      if home.path.length + name.length + 1 < size then .ok (home.file name)
      else .undefined := by
  rw [sprintfFilepath, sprintf, List.length_replicate, length_file]
  by_cases hfits : home.path.length + name.length + 1 < size
  · rw [if_pos hfits, if_pos hfits, CResult.ok_bind,
      cstr_printed (nulFree_file home hname)]
    rfl
  · rw [if_neg hfits, if_neg hfits]
    rfl

/-! ## Sample values -/

def sampleHome : SyncHome :=
  ⟨[0x2f#8, 0x68#8], by decide, by decide⟩

def sampleName : PlainName where
  bytes := [0x61#8]
  nulFree := by decide
  length_lt := by decide
  ne_nil := by decide
  slash_notMem := by decide
  lf_notMem := by decide
  cr_notMem := by decide

end SyncAnywhere.FilePaths
