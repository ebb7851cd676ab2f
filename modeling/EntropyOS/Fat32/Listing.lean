import EntropyOS.Fat32.Files

/-!
# Listing the root directory

`fat32_list_files`.  What the callback is given is collected in a list, in the
order of the calls.
-/

namespace EntropyOS.Fat32

open EntropyOS.Foundation

/-- What `fat32_list_files` passes to its callback. -/
structure Listed where
  filename : List UInt8
  size : UInt32
  isDir : UInt8

/-- The name as it is printed: the base, and the extension if it has one. -/
def listedName (name : Name) : List UInt8 :=
  let bytes := List.ofFn name
  let base := (bytes.take 8).takeWhile (· ≠ 0x20)
  if name 8 = 0x20 then base
  else base ++ 0x2E :: (bytes.drop 8).takeWhile (· ≠ 0x20)

def DirEntry.listed (entry : DirEntry) : Listed :=
  ⟨listedName entry.name, entry.fileSize, entry.attr &&& attrDirectory⟩

def listIn (buf : Buf) : (count i : Nat) → List Listed → Scan (List Listed)
  | 0, _, listed => .more listed
  | count + 1, i, listed =>
      let entry := entryAt buf i
      if entry.IsEnd then .stop listed
      else if entry.IsDeleted then listIn buf count (i + 1) listed
      else if entry.HasAttr attrVolumeId then listIn buf count (i + 1) listed
      else listIn buf count (i + 1) (listed ++ [entry.listed])

def listFrom (cluster : Nat) (listed : List Listed) :
    Program System (Int × List Listed) := do
  if Live cluster then
    let some buf ← readCluster cluster | return (-1, listed)
    let fs ← getFs
    match listIn buf fs.entriesPerCluster 0 listed with
    | .found _ => return (0, listed)
    | .stop listed => return (0, listed)
    | .more listed =>
        let next ← getNextCluster cluster
        by apply listFrom; exacts [next, listed]
  else
    return (0, listed)
partial_fixpoint

/-- `fat32_list_files`; without a callback it refuses. -/
def listFiles (callback : Bool) : Program System (Int × List Listed) := do
  let fs ← getFs
  if !fs.initialized ∨ !callback then
    return (-1, [])
  listFrom fs.rootDirCluster []

end EntropyOS.Fat32
