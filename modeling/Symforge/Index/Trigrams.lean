import Mathlib.Data.List.Dedup
import Symforge.Domain
import Symforge.Library.SortedList
import Symforge.Library.Table

/-!
# The trigram index

Model of `live_index/trigram.rs`. A hash map that is only looked up is a function; the map of files
is a table, whose order of entries is one order in which the hash map may be iterated. A set of
trigrams is a list without repetitions, in the order in which it is iterated. File ids are natural
numbers: the source counts files in 64 bits.
-/

namespace Symforge.Index

open Library Function

/-- `[u8; 3]`. -/
abbrev Trigram := UInt8 × UInt8 × UInt8

/-- The files, with their contents. -/
abbrev FileContents := Table String Bytes

/-- `slice::windows(3)`. -/
def windows : Bytes → List Trigram
  | first :: second :: third :: rest =>
    (first, second, third) :: windows (second :: third :: rest)
  | _ => []

/-- `trigram::extract_trigrams`. -/
def extractTrigrams (bytes : Bytes) : List Trigram :=
  if bytes.length < 3 then [] else (windows bytes).dedup

/-- `trigram::trigrams_of`. -/
def trigramsOf (content : Bytes) : List Trigram := extractTrigrams (toAsciiLowercase content)

variable (haystack needleLower : Bytes)

/-- The inner loop of `contains_bytes_ci` at one position. -/
def matchesAt (position : Nat) : Bool :=
  (List.range needleLower.length).all fun offset =>
    ((toAsciiLowercase haystack)[position + offset]? == needleLower[offset]?)

/-- `trigram::contains_bytes_ci`. -/
def containsBytesCi : Bool :=
  if needleLower.isEmpty then true
  else if haystack.length < needleLower.length then false
  else (List.range (haystack.length - needleLower.length + 1)).any
    (matchesAt haystack needleLower)

/-- `trigram::TrigramIndex`. -/
structure TrigramIndex where
  map : Trigram → Option (List Nat)
  idToPath : Nat → Option String
  pathToId : String → Option Nat
  nextId : Nat

namespace TrigramIndex

/-- `TrigramIndex::new`. -/
def new : TrigramIndex where
  map := fun _ => none
  idToPath := fun _ => none
  pathToId := fun _ => none
  nextId := 0

variable (index : TrigramIndex) (path : String)

/-- `TrigramIndex::get_or_alloc_id`. -/
def getOrAllocId : Nat × TrigramIndex :=
  match index.pathToId path with
  | some id => (id, index)
  | none => (index.nextId, { index with
      nextId := index.nextId + 1
      pathToId := update index.pathToId path (some index.nextId)
      idToPath := update index.idToPath index.nextId (some path) })

/-- `map.entry(tg).or_default()` with the list changed. -/
def modifyEntry (change : List Nat → List Nat) (trigram : Trigram) : TrigramIndex :=
  { index with
    map := update index.map trigram (some (change ((index.map trigram).getD []))) }

/-- `trigram::insert_sorted` into the list of one trigram. -/
def insertId (id : Nat) (index : TrigramIndex) (trigram : Trigram) : TrigramIndex :=
  index.modifyEntry (insertSorted · id) trigram

/-- `TrigramIndex::remove_id`. -/
def removeId (id : Nat) (index : TrigramIndex) (trigram : Trigram) : TrigramIndex :=
  match index.map trigram with
  | none => index
  | some list =>
    match binarySearch list id with
    | .error _ => index
    | .ok position =>
      let removed := list.eraseIdx position
      { index with
        map := update index.map trigram (if removed.isEmpty then none else some removed) }

/-- `TrigramIndex::remove_id_everywhere`. -/
def removeIdEverywhere (id : Nat) : TrigramIndex :=
  { index with
    map := fun trigram => (index.map trigram).bind fun list =>
      let removed := removeSorted list id
      if removed.isEmpty then none else some removed }

/-- `TrigramIndex::insert_file`. -/
def insertFile (content : Bytes) : TrigramIndex :=
  let (id, index) := index.getOrAllocId path
  (trigramsOf content).foldl (insertId id) index

/-- `TrigramIndex::update_file`. -/
def updateFile (old : Option Bytes) (content : Bytes) : TrigramIndex :=
  match index.pathToId path with
  | none => index.insertFile path content
  | some id =>
    match old with
    | none => (index.removeIdEverywhere id).insertFile path content
    | some old =>
      let before := trigramsOf old
      let after := trigramsOf content
      let vanished := before.filter (· ∉ after)
      let appeared := after.filter (· ∉ before)
      appeared.foldl (insertId id) (vanished.foldl (removeId id) index)

/-- `TrigramIndex::remove_file`. -/
def removeFile (content : Option Bytes) : TrigramIndex :=
  match index.pathToId path with
  | none => index
  | some id =>
    let forgotten := { index with
      pathToId := update index.pathToId path none
      idToPath := update index.idToPath id none }
    match content with
    | some content => (trigramsOf content).foldl (removeId id) forgotten
    | none => forgotten.removeIdEverywhere id

/-- The first loop of `build_from_files`: every file gets an id. -/
def allocAll (files : FileContents) : TrigramIndex :=
  files.entries.foldl (fun index entry => (index.getOrAllocId entry.1).2) new

/-- `TrigramIndex::build_from_files`. -/
def buildFromFiles (files : FileContents) : TrigramIndex :=
  let shards := files.entries.map fun entry => trigramsOf entry.2
  let pushed := shards.zipIdx.foldl (fun index shard =>
    shard.1.foldl (modifyEntry · (· ++ [shard.2])) index) (allocAll files)
  { pushed with
    map := fun trigram => (pushed.map trigram).map fun list =>
      dedupAdjacent (list.insertionSort (· ≤ ·)) }

/-- `TrigramIndex::linear_scan_lower`. -/
def linearScanLower (queryLower : Bytes) (files : FileContents) : List String :=
  files.entries.filterMap fun entry =>
    if containsBytesCi entry.2 queryLower then some entry.1 else none

/-- The loop of `search` over the posting lists but the first. -/
def intersect : List Nat → List (List Nat) → List Nat
  | candidates, [] => candidates
  | candidates, list :: rest =>
    let kept := candidates.filter fun id => (binarySearch list id).isOk
    if kept.isEmpty then [] else intersect kept rest

/-- The check of one candidate of `search`. -/
def verify (queryLower : Bytes) (files : FileContents) (id : Nat) : Option String := do
  let path ← index.idToPath id
  let content ← files.lookup path
  if containsBytesCi content queryLower then some path else none

/-- `TrigramIndex::search`. -/
def search (query : Bytes) (files : FileContents) : List String :=
  if query.isEmpty then []
  else
    let queryLower := toAsciiLowercase query
    if queryLower.length < 3 then linearScanLower queryLower files
    else
      let postingLists := (extractTrigrams queryLower).filterMap index.map
      match postingLists.insertionSort (·.length ≤ ·.length) with
      | [] => []
      | first :: rest => (intersect first rest).filterMap (index.verify queryLower files)

end TrigramIndex

end Symforge.Index
