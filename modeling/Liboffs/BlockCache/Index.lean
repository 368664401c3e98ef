import Liboffs.Library.XxHash
import Liboffs.BlockCache.LoggedMap

/-!
# The index

The index holds its entries as objects that the trie, the ranks and other parts of the cache
share.  Entries are therefore kept in a store, and the trie holds references.  The files of the
index belong to the state.

Two checksums and the decoder of data items come from libraries; only the law of round trips is
assumed.  A function has no result where the program would read outside a hash or apply a
`libcbor` accessor to an item of another kind.
-/

namespace Liboffs.BlockCache

open Library.ByteOrder Library.Cbor Library.BucketTrie

/-- The functions of the libraries that the index calls. -/
structure Environment where
  xxh32 : Bytes → UInt32
  xxh64 : Bytes → UInt64
  cborLoad : Bytes → Option Item
  cborLoad_serialize : ∀ item, Serializable item → cborLoad (serialize item) = some item

/-- The checksums and a decoder as they are specified. -/
def referenceEnvironment : Environment where
  xxh32 := Library.XxHash.xxh32
  xxh64 := Library.XxHash.xxh64
  cborLoad := load
  cborLoad_serialize := fun item serializable => by simpa using load_serialize serializable []

/-- The place of an entry object in the store. -/
abbrev EntryRef := Nat

/-- A snapshot file, named by an identifier and a checksum or the text `crc_error`. -/
structure SnapshotFile where
  id : Nat
  crc : Option UInt64
  content : Bytes

/-- The snapshots in the order of their identifiers, and the logs. -/
structure IndexFiles where
  snapshots : List SnapshotFile
  wals : Nat → Option Bytes

/-- A directory without files. -/
def IndexFiles.empty : IndexFiles where
  snapshots := []
  wals := fun _ => none

/-- `index_t` with the entry objects and the files. -/
structure Index where
  root : Trie EntryRef
  entries : EntryRef → IndexEntry
  nextRef : EntryRef
  bucketSize : UInt64
  ranks : UInt32 → List EntryRef
  currentFile : Nat
  lastFile : Option Nat
  nextId : Nat
  wal : Nat
  lastIncrementPromoted : Bool
  isRebuilding : Bool
  maxSnapshots : Nat
  maxWals : Nat
  files : IndexFiles

namespace Index

/-- The hash of an entry object. -/
def hashOf (index : Index) (ref : EntryRef) : Hash :=
  (index.entries ref).hash

/-- The entries of the index in their trie. -/
def contents (index : Index) : Contents :=
  index.root.map index.entries

/-- Change an entry object in place. -/
def setEntry (index : Index) (ref : EntryRef) (entry : IndexEntry) : Index :=
  { index with entries := Function.update index.entries ref entry }

/-- Create an entry object. -/
def allocEntry (index : Index) (entry : IndexEntry) : Index :=
  { index with
    entries := Function.update index.entries index.nextRef entry
    nextRef := index.nextRef + 1 }

/-- Append bytes to a log, which is created if it does not exist. -/
def appendWal (index : Index) (bytes : Bytes) : Index :=
  { index with
    files :=
      { index.files with
        wals := Function.update index.files.wals index.wal
          (some ((index.files.wals index.wal).getD [] ++ bytes)) } }

/-- Write a record to the live log, unless the index is rebuilding. -/
def logRecord (env : Environment) (index : Index) (record : Record) : Index :=
  if index.isRebuilding then
    index
  else
    index.appendWal (walRecord env.xxh32 record.frame.1 record.frame.2)

/-- Append an entry to a rank. -/
def pushRank (index : Index) (fib : UInt32) (ref : EntryRef) : Index :=
  { index with ranks := Function.update index.ranks fib (index.ranks fib ++ [ref]) }

/-- Take the first entry with a hash from a rank. -/
def dropRank (index : Index) (fib : UInt32) (hash : Hash) : Index :=
  { index with
    ranks := Function.update index.ranks fib
      ((index.ranks fib).eraseP fun ref => index.hashOf ref = hash) }

end Index

/-- `index_find`, and `index_peek`. -/
def indexFind (index : Index) (hash : Hash) : Option EntryRef :=
  index.root.find Hash.bit index.hashOf hash 0

/-- `_index_increment`, with the move of the entry between ranks. -/
def indexIncrement (env : Environment) (index : Index) (ref : EntryRef) : Index :=
  let logged := index.logRecord env (.increment (index.entries ref))
  let entry := indexEntryIncrement (index.entries ref)
  let promoted := (fibonacciHitCounterIncrement (index.entries ref).counter).2
  let counted := { logged.setEntry ref entry with lastIncrementPromoted := promoted }
  if promoted then
    (counted.dropRank (entry.counter.fib - 1) entry.hash).pushRank entry.counter.fib ref
  else
    counted

/-- A new entry goes to the lowest rank at every leaf it reaches. -/
def rankNewEntry (index : Index) (ref : EntryRef) : Index :=
  if (index.entries ref).counter.fib = 0 ∧
      (index.entries ref).counter.count = 0 then
    index.pushRank (index.entries ref).counter.fib ref
  else
    index

/-- What `index_add_to_node` does at a leaf besides changing the trie. -/
def indexVisit (env : Environment) (index : Index) : Visit EntryRef → Index
  | .found old => if index.isRebuilding then index else indexIncrement env index old
  | .stored ref => (rankNewEntry index ref).logRecord env (.addition (index.entries ref))
  | .overflowed ref => rankNewEntry index ref

/--
`index_add`: the trie is changed first, and the visits, which do not look at it, are carried out
in order.
-/
def indexAdd (env : Environment) (index : Index) (ref : EntryRef) : Option Index :=
  (index.root.insert Hash.bit index.hashOf index.bucketSize.toNat hashBits ref 0).map fun placed =>
      placed.2.foldl (indexVisit env) { index with root := placed.1 }

/-- `index_get`, which counts a hit. -/
def indexGet (env : Environment) (index : Index) (hash : Hash) : Index × Option EntryRef :=
  match indexFind index hash with
  | some ref => (indexIncrement env index ref, some ref)
  | none => (index, none)

/-- `index_remove`. -/
def indexRemove (env : Environment) (index : Index) (hash : Hash) : Index :=
  match indexFind index hash with
  | some ref =>
    let logged := index.logRecord env (.removal hash)
    { logged with root := index.root.erase Hash.bit index.hashOf hash 0 }.dropRank
        (index.entries ref).counter.fib hash
  | none => index

/-- `index_set_entry_ejection`. -/
def indexSetEntryEjection (env : Environment) (index : Index) (ref : EntryRef) (date : UInt64) :
    Index :=
  (index.logRecord env (.ejection (index.hashOf ref) date)).setEntry ref
    (indexEntrySetEjectionDate (index.entries ref) date)

/-- `index_write_entry_metadata`. -/
def indexWriteEntryMetadata (env : Environment) (index : Index) (ref : EntryRef) : Index :=
  index.logRecord env (.metadata (index.entries ref))

/-- `index_to_array`. -/
def indexToArray (index : Index) : List EntryRef :=
  index.root.toList

/-- `index_count`. -/
def indexCount (index : Index) : Nat :=
  index.root.toList.length

/-- `index_node_to_cbor`. -/
def indexNodeToCbor : Contents → Item
  | .leaf bucket => .array [.array (bucket.map indexEntryToCbor)]
  | .branch left right => .array [indexNodeToCbor left, indexNodeToCbor right]

/-- The data item of contents with a bucket size. -/
def contentsToCbor (bucketSize : UInt64) (contents : Contents) : Item :=
  .array [indexNodeToCbor contents, .uint64 bucketSize]

/-- `index_to_cbor`. -/
def indexToCbor (index : Index) : Item :=
  contentsToCbor index.bucketSize index.contents

/-- The loop of `cbor_to_index_node` over a bucket. -/
def cborToBucket : List Item → Decoded (List IndexEntry)
  | [] => .value []
  | item :: rest =>
    match cborToIndexEntry item with
    | .value entry =>
      match cborToBucket rest with
      | .value entries => .value (entry :: entries)
      | .null => .null
      | .fault => .fault
    | .null => .null
    | .fault => .fault

/-- `cbor_to_index_node`. -/
def cborToIndexNode : Item → Decoded Contents
  | .array [left, right] =>
    match cborToIndexNode left with
    | .value left =>
      match cborToIndexNode right with
      | .value right => .value (.branch left right)
      | .null => .null
      | .fault => .fault
    | .null => .null
    | .fault => .fault
  | .array [.array items] =>
    match cborToBucket items with
    | .value bucket => .value (.leaf bucket)
    | .null => .null
    | .fault => .fault
  | .array [_] => .fault
  | .array _ => .null
  | _ => .fault

/-- `cbor_to_index` on an array, up to the creation of the index. -/
def cborToIndex : List Item → Decoded (UInt64 × Contents)
  | root :: bucketSize :: _ =>
    match cborGetAnyInt bucketSize with
    | some size =>
      match cborToIndexNode root with
      | .value contents => .value (size, contents)
      | .null => .null
      | .fault => .fault
    | none => .fault
  | _ => .fault

/-- The bytes of an entry that `_index_node_to_crc` feeds to the checksum. -/
def entryCrcBytes (legacy : Bool) (entry : IndexEntry) : Bytes :=
  entry.hash.bytes ++ bigEndian 4 entry.counter.fib.toNat ++
    bigEndian 4 entry.counter.count.toNat ++ bigEndian 8 entry.ejectionDate.toNat ++
    bigEndian 8 entry.sectionIndex.toNat ++ bigEndian 8 entry.sectionId.toNat ++
    (if legacy then
      []
    else
      bigEndian 4 entry.ephemeralCount.toNat ++ bigEndian 4 entry.pinCount.toNat)

/-- `_index_to_crc_ex`. -/
def indexToCrc (env : Environment) (legacy : Bool) (contents : Contents) : UInt64 :=
  env.xxh64 (contents.toList.flatMap (entryCrcBytes legacy))

end Liboffs.BlockCache
