import Liboffs.Library.BucketTrie
import Liboffs.Library.LoggedSystem
import Liboffs.BlockCache.Wal

/-!
# The contents of the index as a logged map

What the index is for: a finite map from hashes to entries, in a trie of buckets, that can be
rebuilt from a log, without the objects, ranks and files of the program.

An addition of a new hash logs every entry that is stored, also again by a split; one of a known
hash logs a hit.  The records of an operation rebuild its effect, and no incomplete beginning of
them has one.
-/

namespace Liboffs.BlockCache

open Library.Cbor Library.BucketTrie Library.LoggedSystem List Option Trie

/-- The entries of the index in their trie. -/
abbrev Contents := Trie IndexEntry

/-- The number of bits behind the first one in a hash. -/
def hashBits : Nat := 255

/-- The entry of a hash. -/
def lookup (contents : Contents) (hash : Hash) : Option IndexEntry :=
  contents.find Hash.bit IndexEntry.hash hash 0

/-- Add an entry unless its hash is known, and report the visited leaves. -/
def insertEntry (capacity : Nat) (entry : IndexEntry) (contents : Contents) :
    Option (Contents × List (Visit IndexEntry)) :=
  contents.insert Hash.bit IndexEntry.hash capacity hashBits entry 0

/-- Take the entry of a hash away. -/
def eraseHash (hash : Hash) (contents : Contents) : Contents :=
  contents.erase Hash.bit IndexEntry.hash hash 0

/-- Change the entry of a hash. -/
def modify (hash : Hash) (change : IndexEntry → IndexEntry) (contents : Contents) : Contents :=
  contents.map fun entry => if entry.hash = hash then change entry else entry

/-- The invariant of the trie. -/
structure Sound (capacity : Nat) (contents : Contents) : Prop where
  routed : contents.Routed Hash.bit IndexEntry.hash 0
  distinct : (contents.toList.map IndexEntry.hash).Nodup
  low : contents.height ≤ hashBits
  within : contents.Within capacity

theorem sound_empty (capacity : Nat) : Sound capacity (.leaf []) where
  routed := trivial
  distinct := nodup_nil
  low := Nat.zero_le _
  within := Nat.zero_le _

variable {after next : Contents} {entry : IndexEntry} {visits : List (Visit IndexEntry)}
  {change : Change}

section
variable {capacity : Nat} {contents : Contents} {hash : Hash}

section
variable (sound : Sound capacity contents)
include sound

theorem lookup_eq_some_iff :
    lookup contents hash = some entry ↔ entry ∈ contents.toList ∧ entry.hash = hash :=
  find_eq_some_iff sound.routed sound.distinct

theorem lookup_eq_none_iff :
    lookup contents hash = none ↔ ∀ entry ∈ contents.toList, entry.hash ≠ hash :=
  find_eq_none_iff sound.routed

theorem sound_modify {change : IndexEntry → IndexEntry}
    (keeps : ∀ entry, (change entry).hash = entry.hash) :
    Sound capacity (modify hash change contents) := by
  have same (entry : IndexEntry) : (if entry.hash = hash then change entry else entry).hash =
        entry.hash := by
    split
    · exact keeps entry
    · rfl
  refine ⟨?_, ?_, ?_, ?_⟩
  · rw [modify, Trie.routed_map]
    simpa only [same] using sound.routed
  · simp only [modify, Trie.toList_map, List.map_map]
    have keys : (IndexEntry.hash ∘ fun entry : IndexEntry =>
        if entry.hash = hash then change entry else entry) = IndexEntry.hash := funext same
    rw [keys]
    exact sound.distinct
  · rw [modify, Trie.height_map]
    exact sound.low
  · rw [modify, Trie.within_map]
    exact sound.within

theorem sound_eraseHash : Sound capacity (eraseHash hash contents) where
  routed := Trie.routed_erase sound.routed
  distinct := sound.distinct.sublist ((toList_erase_sublist hash contents 0).map IndexEntry.hash)
  low := by
    rw [eraseHash, height_erase]
    exact sound.low
  within := within_erase sound.within hash 0

theorem accepts_of_absent (absent : lookup contents entry.hash = none) :
    Trie.Accepts Hash.bit IndexEntry.hash 0 entry contents := by
  refine ⟨sound.routed, nodup_cons.mpr ⟨?_, sound.distinct⟩⟩
  intro member
  obtain ⟨other, otherMember, equal⟩ := mem_map.mp member
  exact (lookup_eq_none_iff sound).mp absent other otherMember equal

theorem insertEntry_inserted (absent : lookup contents entry.hash = none)
    (inserted : insertEntry capacity entry contents = some (after, visits)) :
    Trie.Inserted Hash.bit IndexEntry.hash 0 entry contents after visits :=
  insert_inserts inserted (accepts_of_absent sound absent)

theorem insertEntry_of_known (known : lookup contents entry.hash = some old) :
    insertEntry capacity entry contents = some (contents, [.found old]) :=
  insert_of_found known sound.low

theorem sound_insertEntry (inserted : insertEntry capacity entry contents = some (after, visits)) :
    Sound capacity after := by
  cases known : lookup contents entry.hash with
  | some old =>
    rw [insertEntry_of_known sound known] at inserted
    simp only [Option.some.injEq, Prod.mk.injEq] at inserted
    exact inserted.1 ▸ sound
  | none =>
    have spec := insertEntry_inserted sound known inserted
    refine ⟨spec.routed, ?_, ?_, ?_⟩
    · exact ((spec.perm.map IndexEntry.hash).nodup_iff).mpr (accepts_of_absent sound known).distinct
    · exact height_insert inserted sound.low
    · exact within_insert inserted sound.within

end

end

/-- A record of the log with the data that its payload encodes. -/
inductive Record where
  | addition (entry : IndexEntry)
  | removal (hash : Hash)
  | increment (entry : IndexEntry)
  | ejection (hash : Hash) (date : UInt64)
  | metadata (entry : IndexEntry)

open Record

def Record.type : Record → WalType
  | .addition _ => .addition
  | .removal _ => .removal
  | .increment _ => .increment
  | .ejection _ _ => .ejection
  | .metadata _ => .metadata

def Record.item : Record → Item
  | .addition entry | .increment entry | .metadata entry => indexEntryToCbor entry
  | .removal hash => .bytestring hash.bytes
  | .ejection hash date => .array [.bytestring hash.bytes, .uint64 date]

/-- The type and payload of a record. -/
def Record.frame (record : Record) : Frame :=
  (record.type, serialize record.item)

theorem serializable_item (record : Record) : Serializable record.item := by
  cases record with
  | addition entry => exact serializable_indexEntryToCbor entry
  | increment entry => exact serializable_indexEntryToCbor entry
  | metadata entry => exact serializable_indexEntryToCbor entry
  | removal hash => simp [item, Serializable, hash.size]
  | ejection hash date => simp [item, Serializable, AllSerializable, hash.size]

theorem sized_frame (record : Record) : record.frame.Sized := by
  cases record with
  | addition entry => exact length_serialize_indexEntryToCbor entry
  | increment entry => exact length_serialize_indexEntryToCbor entry
  | metadata entry => exact length_serialize_indexEntryToCbor entry
  | removal hash =>
    simp [frame, item, type, Frame.Sized, payloadSize, serialize, header, hash.size]
  | ejection hash date =>
    simp [frame, item, type, Frame.Sized, payloadSize, serialize, serializeAll, header, hash.size]

theorem sized_frames (records : List Record) : ∀ frame ∈ records.map Record.frame, frame.Sized := by
  intro frame member
  obtain ⟨record, _, rfl⟩ := mem_map.mp member
  exact sized_frame record

/-- The action of a record on the contents. -/
def replayRecord (capacity : Nat) (contents : Contents) : Record → Option Contents
  | .addition entry => (insertEntry capacity entry contents).map Prod.fst
  | .removal hash => some (eraseHash hash contents)
  | .increment entry => some (modify entry.hash indexEntryIncrement contents)
  | .ejection hash date => some (modify hash (indexEntrySetEjectionDate · date) contents)
  | .metadata entry => some (modify entry.hash (indexEntryCopyMetadata entry) contents)

/-- An operation on the contents. -/
inductive Change where
  | add (entry : IndexEntry)
  | increment (entry : IndexEntry)
  | setEjection (hash : Hash) (date : UInt64)
  | setMetadata (entry : IndexEntry)
  | remove (hash : Hash)

/-- The effect of an operation. -/
def applyChange (capacity : Nat) (contents : Contents) : Change → Option Contents
  | .add entry =>
    match lookup contents entry.hash with
    | some _ => some (modify entry.hash indexEntryIncrement contents)
    | none => (insertEntry capacity entry contents).map Prod.fst
  | .increment entry => some (modify entry.hash indexEntryIncrement contents)
  | .setEjection hash date => some (modify hash (indexEntrySetEjectionDate · date) contents)
  | .setMetadata entry => some (modify entry.hash (indexEntryCopyMetadata entry) contents)
  | .remove hash => some (eraseHash hash contents)

/-- The records that the visits of an addition write. -/
def storedRecords (visits : List (Visit IndexEntry)) : List Record :=
  (Visit.storedIn visits).map .addition

/-- The records that an operation writes. -/
def changeRecords (capacity : Nat) (contents : Contents) : Change → List Record
  | .add entry =>
    match lookup contents entry.hash with
    | some old => [.increment old]
    | none =>
      match insertEntry capacity entry contents with
      | some (_, visits) => storedRecords visits
      | none => []
  | .increment entry => [.increment entry]
  | .setEjection hash date => [.ejection hash date]
  | .setMetadata entry => [.metadata entry]
  | .remove hash =>
    match lookup contents hash with
    | some _ => [.removal hash]
    | none => []

/-- The contents with their log. -/
def contentsSystem (capacity : Nat) : System Contents Change Record where
  step := applyChange capacity
  records := changeRecords capacity
  replay := replayRecord capacity

section
variable {capacity : Nat} {contents : Contents} (sound : Sound capacity contents)
include sound

theorem sound_applyChange (applied : applyChange capacity contents change = some next) :
    Sound capacity next := by
  cases change with
  | add entry =>
    simp only [applyChange] at applied
    split at applied
    · cases applied
      exact sound_modify sound hash_indexEntryIncrement
    · obtain ⟨⟨after, visits⟩, inserted, rfl⟩ :=
        map_eq_some_iff.mp applied
      exact sound_insertEntry sound inserted
  | increment entry =>
    cases applied
    exact sound_modify sound hash_indexEntryIncrement
  | setEjection hash date =>
    cases applied
    exact sound_modify sound (hash_indexEntrySetEjectionDate · date)
  | setMetadata entry =>
    cases applied
    exact sound_modify sound (hash_indexEntryCopyMetadata entry)
  | remove hash =>
    cases applied
    exact sound_eraseHash sound

theorem replayAll_known
    {entries : List IndexEntry} (known : ∀ entry ∈ entries, entry ∈ contents.toList) :
    (contentsSystem capacity).replayAll contents (entries.map .addition) = some contents := by
  induction entries with
  | nil => rfl
  | cons entry rest ih =>
    have found := (lookup_eq_some_iff sound).mpr ⟨known entry mem_cons_self, rfl⟩
    change ((insertEntry capacity entry contents).map Prod.fst).bind _ = _
    rw [insertEntry_of_known sound found]
    exact ih fun other member => known other (mem_cons_of_mem _ member)

/-- The records of an addition end with the new entry. -/
theorem storedRecords_of_absent (absent : lookup contents entry.hash = none)
    (inserted : insertEntry capacity entry contents = some (after, visits)) :
    ∃ again : List IndexEntry, storedRecords visits =
        again.map Record.addition ++ [.addition entry] ∧
      ∀ other ∈ again, other ∈ contents.toList := by
  obtain ⟨again, stored, known⟩ := (insertEntry_inserted sound absent inserted).stored
  exact ⟨again, by simp [storedRecords, stored], known⟩

theorem complete_changeRecords (applied : applyChange capacity contents change = some next) :
    (contentsSystem capacity).replayAll contents
      (changeRecords capacity contents change) = some next := by
  cases change with
  | add entry =>
    cases known : lookup contents entry.hash with
    | some old =>
      have same := ((lookup_eq_some_iff sound).mp known).2
      simp only [applyChange, known] at applied
      simp [changeRecords, known, System.replayAll, contentsSystem, replayRecord, same, applied]
    | none =>
      simp only [applyChange, known] at applied
      obtain ⟨⟨after, visits⟩, inserted, rfl⟩ := map_eq_some_iff.mp applied
      obtain ⟨again, stored, old⟩ := storedRecords_of_absent sound known inserted
      simp only [changeRecords, known, inserted, stored]
      rw [System.replayAll_append, replayAll_known sound old]
      simp [System.replayAll, contentsSystem, replayRecord, inserted]
  | increment | setEjection | setMetadata =>
    cases applied
    rfl
  | remove hash =>
    cases applied
    cases known : lookup contents hash with
    | some old =>
      simp only [changeRecords, known]
      rfl
    | none =>
      simp only [changeRecords, known, System.replayAll, eraseHash]
      rw [erase_of_absent known]

end

/-- One record is complete, so its beginnings are empty. -/
theorem replayAll_take_singleton {capacity : Nat} (contents : Contents) (record : Record)
    {count : Nat} (short : count < [record].length) :
    (contentsSystem capacity).replayAll contents ([record].take count) = some contents := by
  obtain rfl : count = 0 := by simpa using short
  rfl

theorem incomplete_changeRecords {capacity : Nat} {contents : Contents}
    (sound : Sound capacity contents) (applied : applyChange capacity contents change = some next)
    (count : Nat) (short : count < (changeRecords capacity contents change).length) :
    (contentsSystem capacity).replayAll contents
      ((changeRecords capacity contents change).take count) = some contents := by
  cases change with
  | add entry =>
    cases known : lookup contents entry.hash with
    | some old =>
      simp only [changeRecords, known] at short ⊢
      exact replayAll_take_singleton contents _ short
    | none =>
      simp only [applyChange, known] at applied
      obtain ⟨⟨after, visits⟩, inserted, rfl⟩ := map_eq_some_iff.mp applied
      obtain ⟨again, stored, old⟩ := storedRecords_of_absent sound known inserted
      simp only [changeRecords, known, inserted, stored, length_append, length_map,
        length_singleton] at short ⊢
      rw [take_append_of_le_length (by simpa using Nat.le_of_lt_succ short), ← map_take]
      exact replayAll_known sound fun other member => old other (mem_of_mem_take member)
  | increment | setEjection | setMetadata => exact replayAll_take_singleton contents _ short
  | remove hash =>
    cases known : lookup contents hash with
    | some old =>
      simp only [changeRecords, known] at short ⊢
      exact replayAll_take_singleton contents _ short
    | none => simp [changeRecords, known] at short

/-- The log of the contents is faithful. -/
theorem faithful_contentsSystem : (contentsSystem capacity).Faithful (Sound capacity) where
  preserved := sound_applyChange
  complete := complete_changeRecords
  incomplete := incomplete_changeRecords

end Liboffs.BlockCache
