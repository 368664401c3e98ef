import Liboffs.BlockCache.Index
import Liboffs.Library.FileSlots

/-!
# Snapshots, rollover and recovery of the index

`index_debounce` writes a snapshot and starts a new log, and `index_create`
finds the newest usable snapshot and replays logs on it.  The snapshot with
identifier `n` holds what the logs up to `n` have recorded; the records after
it go to log `n + 1`.
-/

namespace Liboffs.BlockCache

open Library.ByteOrder Library.Cbor Library.BucketTrie Library.FileSlots

/-- `_index_prune_old_snapshots`, with the identifier of the first snapshot that stays. -/
def indexPruneOldSnapshots (index : Index) : Index × Nat :=
  if index.maxSnapshots = 0 then
    (index, 0)
  else
    let kept := index.files.snapshots.drop (index.files.snapshots.length - index.maxSnapshots)
    ({ index with files := { index.files with snapshots := kept } },
      match kept with
      | first :: _ => first.id
      | [] => 0)

/-- `_index_prune_old_wals`. -/
def indexPruneOldWals (index : Index) (firstKeptId : Nat) : Index :=
  if index.maxWals = 0 then
    index
  else
    { index with
      files :=
        { index.files with
          wals := fun id => if id < firstKeptId then none else index.files.wals id } }

/-- The two pruning steps, which always follow each other. -/
def indexPrune (index : Index) : Index :=
  let pruned := indexPruneOldSnapshots index
  indexPruneOldWals pruned.1 pruned.2

/--
Write a snapshot file in the order of the identifiers; one of the same name is overwritten without
truncation.
-/
def writeSnapshot (file : SnapshotFile) : List SnapshotFile → List SnapshotFile
  | [] => [file]
  | other :: rest =>
    if other.id = file.id ∧ other.crc = file.crc then
      { other with content := overwrite other.content file.content } :: rest
    else if file.id < other.id then
      file :: other :: rest
    else
      other :: writeSnapshot file rest

/-- The snapshot file of contents. -/
def snapshotOf (env : Environment) (bucketSize : UInt64) (id : Nat)
    (contents : Contents) : SnapshotFile where
  id := id
  crc := some (indexToCrc env false contents)
  content := serialize (contentsToCbor bucketSize contents)

/-- The snapshot that `index_debounce` writes. -/
def indexSnapshot (env : Environment) (index : Index) : SnapshotFile :=
  snapshotOf env index.bucketSize index.currentFile index.contents

/-- The outcome of the write to a snapshot file that has been opened, or of its sync. -/
inductive SnapshotWrite where
  | complete
  | failed (written : Nat)
deriving DecidableEq

/-- `index_debounce` writes to the file unseen; without a file it accesses the null pointer. -/
def snapshotWrite : FileWrite → Option SnapshotWrite
  | .complete => some .complete
  | .failed (some written) => some (.failed written)
  | .failed none => none

/-- `index_debounce`; a failure gives the names back, but not the last one and the next one. -/
def indexDebounce (env : Environment) (write : SnapshotWrite) (index : Index) : Index :=
  let snapshot := indexSnapshot env index
  match write with
  | .complete =>
    indexPrune
      { index with
        lastFile := some index.currentFile
        currentFile := index.nextId
        nextId := index.nextId + 1
        wal := index.wal + 1
        files :=
          { index.files with
            snapshots := writeSnapshot snapshot index.files.snapshots } }
  | .failed written =>
    { index with
      lastFile := none
      nextId := index.nextId + 1
      files :=
        { index.files with
          snapshots :=
            writeSnapshot { snapshot with content := snapshot.content.take written }
              index.files.snapshots } }

/-- Act on the entry of a hash that stands in a record. -/
def withRecordedEntry (index : Index) (hash : Hash) (act : EntryRef → Index) : Index :=
  match indexFind index hash with
  | some ref => act ref
  | none => index

/--
Act on a recorded byte string as a hash; with another length the search may read outside of it.
-/
def withRecordedHash (index : Index) (bytes : Bytes) (act : Hash → Index) : Option Index :=
  if size : bytes.length = 32 then
    some (act ⟨bytes, size⟩)
  else
    let path := index.root.pathLength getBit bytes 0
    if path = 0 ∨ path < 8 * bytes.length then
      some index
    else
      none

/-- Act on a recorded entry, unless it is not one. -/
def withDecodedEntry (env : Environment) (index : Index) (payload : Bytes)
    (act : IndexEntry → Option Index) : Option Index :=
  match env.cborLoad payload with
  | none => some index
  | some item =>
    match cborToIndexEntry item with
    | .value entry => act entry
    | .null => some index
    | .fault => none

/-- The body of the loop of `_index_replay_wal`. -/
def indexReplayRecord (env : Environment) (index : Index) (type : WalType) (payload : Bytes) :
    Option Index :=
  match type with
  | .addition =>
    withDecodedEntry env index payload fun entry =>
      indexAdd env (index.allocEntry entry) index.nextRef
  | .increment =>
    withDecodedEntry env index payload fun entry =>
      some (withRecordedEntry index entry.hash (indexIncrement env index))
  | .ejection =>
    match env.cborLoad payload with
    | some (.array (.bytestring bytes :: item :: _)) =>
      match cborGetInt item with
      | some date =>
        withRecordedHash index bytes fun hash =>
          withRecordedEntry index hash fun ref =>
            index.setEntry ref (indexEntrySetEjectionDate (index.entries ref) date)
      | none => some index
    | _ => some index
  | .removal =>
    match env.cborLoad payload with
    | some (.bytestring bytes) => withRecordedHash index bytes (indexRemove env index)
    | _ => some index
  | .metadata =>
    withDecodedEntry env index payload fun entry =>
      some (withRecordedEntry index entry.hash fun ref =>
        index.setEntry ref (indexEntryCopyMetadata entry (index.entries ref)))

/-- The bytes of a log; a missing log is empty. -/
def Index.walBytes (index : Index) (id : Nat) : Bytes :=
  (index.files.wals id).getD []

/-- Open a log for reading, which creates it if it does not exist. -/
def Index.openWal (index : Index) (id : Nat) : Index :=
  { index with
    files :=
      { index.files with wals := Function.update index.files.wals id (some (index.walBytes id)) } }

/-- `_index_replay_wal`, with the reason of the end and whether old records were seen. -/
def indexReplayWal (env : Environment) (index : Index) (walId : Nat) :
    Option (Index × WalStop × Bool) :=
  walReplay env.xxh32 (indexReplayRecord env) (index.walBytes walId) (index.openWal walId)

/-- Number the elements of a trie from left to right. -/
def numberFrom : Nat → Contents → Trie EntryRef
  | start, .leaf bucket => .leaf (List.range' start bucket.length)
  | start, .branch left right =>
    .branch (numberFrom start left) (numberFrom (start + left.toList.length) right)

def zeroHash : Hash :=
  ⟨List.replicate 32 0, by simp⟩

/-- An entry for the places of the store that no object uses. -/
def unusedEntry : IndexEntry :=
  indexEntryCreate zeroHash

/-- The identifier of the newest snapshot file, or zero. -/
def lastSnapshotId (files : IndexFiles) : Nat :=
  match files.snapshots.getLast? with
  | some last => last.id
  | none => 0

/-- `index_create_from`. -/
def indexCreateFrom (files : IndexFiles) (bucketSize : UInt64) (root : Contents)
    (maxSnapshots maxWals : Nat) : Index where
  root := numberFrom 0 root
  entries := fun ref => root.toList.getD ref unusedEntry
  nextRef := root.toList.length
  bucketSize := bucketSize
  ranks := fun fib =>
    (List.range root.toList.length).filter fun ref =>
      (root.toList.getD ref unusedEntry).counter.fib = fib
  currentFile := lastSnapshotId files + 1
  lastFile := files.snapshots.getLast?.map SnapshotFile.id
  nextId := lastSnapshotId files + 2
  wal := lastSnapshotId files + 1
  lastIncrementPromoted := false
  isRebuilding := false
  maxSnapshots := maxSnapshots
  maxWals := maxWals
  files := files

/-- `_index_new_empty`, which is always called with identifier zero. -/
def indexNewEmpty (files : IndexFiles) (bucketSize : UInt64)
    (maxSnapshots maxWals : Nat) : Index where
  root := .leaf []
  entries := fun _ => unusedEntry
  nextRef := 0
  bucketSize := bucketSize
  ranks := fun _ => []
  currentFile := 1
  lastFile := none
  nextId := 2
  wal := 1
  lastIncrementPromoted := false
  isRebuilding := false
  maxSnapshots := maxSnapshots
  maxWals := maxWals
  files := files

/-- What the load of a snapshot file gives. -/
inductive SnapshotLoad where
  | loaded (bucketSize : UInt64) (root : Contents)
  | rejected (errorCode : Option Int)
  | fault

/-- The load of one snapshot file in `index_create`. -/
def loadSnapshot (env : Environment) (file : SnapshotFile) : SnapshotLoad :=
  match file.crc with
  | none => .rejected none
  | some crc =>
    match env.cborLoad file.content with
    | none => .rejected (some (-4))
    | some (.array items) =>
      match cborToIndex items with
      | .null => .rejected none
      | .fault => .fault
      | .value (bucketSize, root) =>
        if indexToCrc env false root = crc ∨
            indexToCrc env true root = crc then
          .loaded bucketSize root
        else
          .rejected none
    | some _ => .rejected (some (-5))

/-- Replay the later logs in order, up to the first that does not end cleanly. -/
def replayLater (env : Environment) : Index → List SnapshotFile → Bool → Option (Index × Bool)
  | index, [], legacy => some (index, legacy)
  | index, file :: rest, legacy =>
    (indexReplayWal env index file.id).bind fun replayed =>
      if replayed.2.1 = .endOfLog then
        replayLater env replayed.1 rest (legacy || replayed.2.2)
      else
        some (replayed.1, legacy || replayed.2.2)

/-- Set the flag under which no operation writes to the log. -/
def Index.startRebuilding (index : Index) : Index :=
  { index with isRebuilding := true }

/-- Clear the flag again. -/
def Index.stopRebuilding (index : Index) : Index :=
  { index with isRebuilding := false }

/-- Recovery from the newest snapshot: its successor log is replayed. -/
def recoverNewest (env : Environment) (write : SnapshotWrite) (index : Index)
    (lastId : Nat) : Option Index :=
  (indexReplayWal env index.startRebuilding (lastId + 1)).map fun replayed =>
      let pruned := indexPrune replayed.1.stopRebuilding
      if replayed.2.2 then indexDebounce env write pruned else pruned

/-- Recovery from an older snapshot: the logs of the later ones are used. -/
def recoverOlder (env : Environment) (write : SnapshotWrite) (index : Index)
    (lastId : Nat) (later : List SnapshotFile) : Option Index :=
  (replayLater env index.startRebuilding later false).map fun replayed =>
      let currentId := later.length + 1 + lastId
      let pruned := indexPrune
        { replayed.1.stopRebuilding with
          currentFile := currentId
          nextId := currentId + 1
          lastFile := some (currentId - 1) }
      if replayed.2 then
        indexDebounce env write { pruned with wal := currentId }
      else
        pruned

/-- The loop of `index_create` from the newest snapshot on, with those passed and the last error. -/
def indexCreateLoop (env : Environment) (write : SnapshotWrite) (files : IndexFiles)
    (maxSnapshots maxWals : Nat) :
    List SnapshotFile → List SnapshotFile → Int → Option (Option Index × Int)
  | [], _, errorCode => some (none, errorCode)
  | file :: older, later, errorCode =>
    match loadSnapshot env file with
    | .fault => none
    | .rejected code =>
      indexCreateLoop env write files maxSnapshots maxWals older
        (file :: later) (code.getD errorCode)
    | .loaded bucketSize root =>
      let index := indexCreateFrom files bucketSize root maxSnapshots maxWals
      let recovered :=
        if later.isEmpty then
          recoverNewest env write index file.id
        else
          recoverOlder env write index file.id later
      recovered.map fun index => (some index, errorCode)

/-- `index_create`, with the error code. -/
def indexCreate (env : Environment) (write : SnapshotWrite) (files : IndexFiles)
    (bucketSize : UInt64) (maxSnapshots maxWals : Nat) : Option (Index × Int) :=
  (indexCreateLoop env write files maxSnapshots maxWals
    files.snapshots.reverse [] 0).map fun result =>
      (result.1.getD (indexNewEmpty files bucketSize maxSnapshots maxWals), result.2)

end Liboffs.BlockCache
