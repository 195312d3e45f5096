import SyncAnywhere.Core.CMemory

/-!
# The size of a file

`get_file_size` opens the file for reading and writing and asks for its status.
It looks at neither result: for a file that cannot be opened so, it returns the
`st_size` of a structure that nothing has filled.
-/

namespace SyncAnywhere.FileSize

open SyncAnywhere.CMemory

/-- The outcomes of the calls of one `get_file_size`. -/
structure SizeCalls where
  /-- `open` with `O_RDWR` succeeds. -/
  opened : Bool
  /-- `fstat` succeeds. -/
  known : Bool
  /-- The `st_size` of the local structure before `fstat`. -/
  uninitialized : BitVec 64
  opened_of_known : known = true → opened = true

/-- The size is an `off_t`, returned as an `int`. -/
def getFileSize (calls : SizeCalls) (file : List Byte) : BitVec 32 :=
  let size := if calls.known then BitVec.ofNat 64 file.length
    else calls.uninitialized
  size.setWidth 32

theorem getFileSize_of_known {calls : SizeCalls} (hknown : calls.known = true)
    (file : List Byte) : getFileSize calls file = BitVec.ofNat 32 file.length := by
  rw [getFileSize, if_pos hknown]
  exact BitVec.setWidth_ofNat_of_le (by decide) file.length

theorem getFileSize_of_not_known {calls : SizeCalls}
    (hunknown : calls.known = false) (file : List Byte) :
    getFileSize calls file = calls.uninitialized.setWidth 32 := by
  rw [getFileSize, hunknown]
  rfl

/-- The file may be read and written. -/
def knownSize : SizeCalls where
  opened := true
  known := true
  uninitialized := 0#64
  opened_of_known := fun _ => rfl

end SyncAnywhere.FileSize
