import Liboffs.Library.ByteOrder

/-!
# Directory descriptors

An OFD lists the files and the directories of a directory.  It is encoded as a
map with a version and an array of maps, one for each entry.  A map is created
for a number of pairs and takes no more than these.  An item that has been
serialized is taken to be loaded as it was.
-/

namespace Liboffs.OffStreams

open Library.ByteOrder

/-- The CBOR items of an OFD. -/
inductive OfdItem where
  | uint (value : UInt64)
  | bytestring (bytes : Bytes)
  | string (text : String)
  | array (items : List OfdItem)
  | map (pairs : List (OfdItem × OfdItem))

/-- `ori_t`; the type of the blocks is the value of the enumeration. -/
structure OfdFile where
  fileHash : Bytes
  descriptorHash : Option Bytes
  descriptorOffset : UInt64
  blockType : UInt64
  tupleSize : UInt64
  fileOffset : UInt64
  fileName : Option String
  finalByte : UInt64
deriving DecidableEq

/-- `ofd_entry_t`. -/
inductive OfdEntry where
  | file (name : String) (ori : OfdFile)
  | directory (name : String) (hash : Bytes) (descriptorHash : Option Bytes) (size : UInt64)
deriving DecidableEq

/-- `cbor_new_definite_map`, and `cbor_map_add` of each pair. -/
def cborDefiniteMap (capacity : Nat) (pairs : List (String × OfdItem)) : OfdItem :=
  .map (pairs.foldl (fun added pair =>
    if added.length < capacity then added ++ [(.string pair.1, pair.2)] else added) [])

/-- A pair with a hash, if there is one. -/
def hashPair (key : String) (hash : Option Bytes) : List (String × OfdItem) :=
  hash.toList.map fun bytes => (key, .bytestring bytes)

/-- An entry in `ofd_encode`. -/
def ofdEncodeEntry : OfdEntry → OfdItem
  | .file name ori =>
    cborDefiniteMap (if ori.descriptorHash.isSome then 8 else 7)
      ([("n", .string name), ("t", .uint 0), ("f", .bytestring ori.fileHash)] ++
        hashPair "D" ori.descriptorHash ++
        [("s", .uint ori.finalByte), ("B", .uint ori.blockType), ("T", .uint ori.tupleSize),
          ("o", .uint ori.fileOffset)])
  | .directory name hash descriptorHash size =>
    cborDefiniteMap 3
      ([("n", .string name), ("t", .uint 1), ("d", .bytestring hash)] ++
        hashPair "D" descriptorHash ++ [("s", .uint size)])

/-- `ofd_encode`. -/
def ofdEncode (entries : List OfdEntry) : OfdItem :=
  cborDefiniteMap 2 [("v", .uint 1), ("entries", .array (entries.map ofdEncodeEntry))]

/-- What `ofd_decode` collects of an entry. -/
structure EntryFields where
  name : Option String := none
  isDirectory : Bool := false
  hash : Option Bytes := none
  descriptorHash : Option Bytes := none
  finalByte : UInt64 := 0
  blockType : UInt64 := 128000
  tupleSize : UInt64 := 3
  fileOffset : UInt64 := 0

/-- A pair of an entry; other keys, and values of another kind, are passed over. -/
def EntryFields.read (fields : EntryFields) : OfdItem × OfdItem → EntryFields
  | (.string "n", .string name) => { fields with name := some name }
  | (.string "t", .uint type) => { fields with isDirectory := type.toUInt8 == 1 }
  | (.string "f", .bytestring hash) => { fields with hash := some hash }
  | (.string "d", .bytestring hash) => { fields with hash := some hash }
  | (.string "D", .bytestring hash) => { fields with descriptorHash := some hash }
  | (.string "s", .uint size) => { fields with finalByte := size }
  | (.string "B", .uint type) => { fields with blockType := type }
  | (.string "T", .uint size) => { fields with tupleSize := size }
  | (.string "o", .uint offset) => { fields with fileOffset := offset }
  | _ => fields

/-- An entry in `ofd_decode`, unless it is passed over. -/
def ofdDecodeEntry : OfdItem → Option OfdEntry
  | .map pairs => do
    let fields := pairs.foldl EntryFields.read {}
    let name ← fields.name
    let hash ← fields.hash
    if fields.isDirectory then
      some (.directory name hash fields.descriptorHash fields.finalByte)
    else
      some (.file name
        { fileHash := hash
          descriptorHash := some (fields.descriptorHash.getD hash)
          descriptorOffset := 0
          blockType := fields.blockType
          tupleSize := fields.tupleSize
          fileOffset := fields.fileOffset
          fileName := some name
          finalByte := fields.finalByte })
  | _ => none

/-- The version and the entries in `ofd_decode`; a version other than one refuses the whole. -/
def readRoot (found : Option OfdItem) : OfdItem × OfdItem → Option (Option OfdItem)
  | (.string "v", .uint version) => if version.toUInt8 = 1 then some found else none
  | (.string "entries", value) => some (some value)
  | _ => some found

/-- `ofd_decode`. -/
def ofdDecode : OfdItem → Option (List OfdEntry)
  | .map pairs => do
    let .array items ← (← pairs.foldlM readRoot none) | none
    some (items.filterMap ofdDecodeEntry)
  | _ => none

/-- What is left of an entry after it has been encoded and decoded. -/
def OfdEntry.decoded : OfdEntry → OfdEntry
  | .file name ori => .file name
      { ori with
        descriptorHash := some (ori.descriptorHash.getD ori.fileHash)
        descriptorOffset := 0
        fileName := some name }
  | .directory name hash _ _ => .directory name hash none 0

theorem ofdDecodeEntry_encode (entry : OfdEntry) :
    ofdDecodeEntry (ofdEncodeEntry entry) = some entry.decoded := by
  cases entry with
  | file name ori =>
    cases given : ori.descriptorHash <;>
      simp [ofdEncodeEntry, cborDefiniteMap, hashPair, ofdDecodeEntry, EntryFields.read,
        OfdEntry.decoded, given]
  | directory name hash descriptorHash size =>
    -- the map is full when the second hash and the size are added
    cases descriptorHash <;>
      simp [ofdEncodeEntry, cborDefiniteMap, hashPair, ofdDecodeEntry, EntryFields.read,
        OfdEntry.decoded]

theorem ofdDecode_encode : ofdDecode (ofdEncode entries) = some (entries.map OfdEntry.decoded) := by
  have each : ofdDecodeEntry ∘ ofdEncodeEntry = some ∘ OfdEntry.decoded :=
    funext ofdDecodeEntry_encode
  have all : (entries.map ofdEncodeEntry).filterMap ofdDecodeEntry =
      entries.map OfdEntry.decoded := by
    rw [List.filterMap_map, each, List.filterMap_eq_map]
  simp [-List.filterMap_map, ofdEncode, cborDefiniteMap, ofdDecode, readRoot, all]

/--
A file has a hash of its descriptor and nothing that is not encoded, and a
directory has neither a hash of its descriptor nor a size.
-/
def OfdEntry.Encodable : OfdEntry → Prop
  | .file name ori =>
    ori.descriptorHash.isSome = true ∧ ori.descriptorOffset = 0 ∧ ori.fileName = some name
  | .directory _ _ descriptorHash size => descriptorHash = none ∧ size = 0

theorem OfdEntry.decoded_eq_iff (entry : OfdEntry) : entry.decoded = entry ↔ entry.Encodable := by
  cases entry with
  | file name ori =>
    rcases ori with ⟨hash, _ | descriptorHash, offset, type, tuple, start, fileName, final⟩ <;>
      simp [decoded, Encodable, eq_comm]
  | directory name hash descriptorHash size => simp [decoded, Encodable, eq_comm]

/-- A directory is decoded as it was encoded exactly if each of its entries is encodable. -/
theorem ofd_round_trips_iff (entries : List OfdEntry) :
    ofdDecode (ofdEncode entries) = some entries ↔ ∀ entry ∈ entries, entry.Encodable := by
  simp only [ofdDecode_encode, Option.some.injEq, ← OfdEntry.decoded_eq_iff]
  conv_lhs => rhs; rw [← List.map_id entries]
  exact List.map_inj_left

/-- The size and the hash of the descriptor of a directory are lost. -/
theorem directory_is_cut :
    ofdDecode (ofdEncode [.directory "sub" [1] (some [2]) 5]) ≠
      some [.directory "sub" [1] (some [2]) 5] := by
  rw [ofdDecode_encode]
  decide

end Liboffs.OffStreams
