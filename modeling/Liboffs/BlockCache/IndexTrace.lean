import Liboffs.BlockCache.RecoveryRule
import Liboffs.BlockCache.IndexObjects
import Liboffs.Library.TrieRoom

/-!
# What recovery can find in the files of an index

As long as no entry is moved, every entry in a snapshot and every addition in
a log names the slot that the index has for its hash.  Whatever a crash leaves
of these files, and wherever the replay stops, the recovered index then names
no other slots.  Only the snapshots and the additions matter here: the other
records change no slot, so that unrecorded changes of counters do no harm.
-/

namespace Liboffs.BlockCache

open Library.ByteOrder Library.BucketTrie Library.FileSlots List Option

section
variable (xxh32 : Bytes → UInt32) (action : State → WalType → Bytes → Option State)

section
variable {frames : List Frame} (sized : ∀ frame ∈ frames, frame.Sized) {tail : Bytes}
  (damaged : Damaged xxh32 tail)
include sized damaged

theorem walReplayFrom_beginning (walSize fuel : Nat) (first : Bool) (cursor : Nat) :
    ∃ count stop, ∀ state, walReplayFrom xxh32 action walSize fuel first cursor false
          (walLog xxh32 frames ++ tail) state =
        (actAll action state (frames.take count)).map fun final => (final, stop, false) := by
  induction frames generalizing fuel first cursor with
  | nil =>
    rcases damaged with ⟨stop, damaged⟩
    cases fuel with
    | zero => exact ⟨0, .endOfLog, fun state => rfl⟩
    | succ fuel =>
      exact ⟨0, _, fun state =>
        walReplayFrom_damaged xxh32 action walSize fuel first cursor state damaged⟩
  | cons frame rest ih =>
    have read := walRead_walRecord xxh32 (sized frame mem_cons_self) (walLog xxh32 rest ++ tail)
    have length := length_walRecord xxh32 frame.1 frame.2
    cases fuel with
    | zero => exact ⟨0, .endOfLog, fun state => rfl⟩
    | succ fuel =>
      by_cases past : first = false ∧ walSize ≤ cursor
      · refine ⟨0, .endOfLog, fun state => ?_⟩
        rw [walReplayFrom, if_pos past]
        rfl
      · by_cases inside : cursor + (5 + frame.2.length) ≤ walSize
        · rcases ih (fun other member =>
              sized other (mem_cons_of_mem _ member))
            fuel false (cursor + (5 + frame.2.length)) with
            ⟨count, stop, replayed⟩
          refine ⟨count + 1, stop, fun state => ?_⟩
          rw [walLog_cons, append_assoc, walReplayFrom, if_neg past, read]
          simp only
          rw [if_pos inside, drop_left' length, take_succ_cons, actAll_cons, map_bind]
          exact congrArg (Option.bind _) (funext replayed)
        · refine ⟨0, .pastSize, fun state => ?_⟩
          rw [walLog_cons, append_assoc, walReplayFrom, if_neg past, read]
          simp only
          rw [if_neg inside]
          rfl

end

end

/-- Every entry names a slot that belongs to its hash. -/
def NamesSlots (named : Hash → UInt64 × Nat → Prop) (contents : Contents) : Prop :=
  ∀ entry ∈ contents.toList, named entry.hash entry.slot

def Record.NamesSlot (named : Hash → UInt64 × Nat → Prop) : Record → Prop
  | .addition entry => named entry.hash entry.slot
  | .removal _ | .increment _ | .ejection _ _ | .metadata _ => True

variable {record : Record} {named : Hash → UInt64 × Nat → Prop}

theorem Record.NamesSlot.mono (names : record.NamesSlot named)
    (subset : ∀ hash slot, named hash slot → other hash slot) : record.NamesSlot other := by
  cases record with
  | addition entry => exact subset _ _ names
  | removal | increment | ejection | metadata => trivial

variable {entry : IndexEntry} {records : List Record}

section
variable {named : Hash → UInt64 × Nat → Prop} {capacity : Nat} {contents : Contents}

theorem namesSlots_modify (names : NamesSlots named contents) (hash : Hash)
    (sameHash : ∀ entry, (change entry).hash = entry.hash)
    (sameSlot : ∀ entry, (change entry).slot = entry.slot) :
    NamesSlots named (modify hash change contents) := by
  intro entry member
  rw [modify, Trie.toList_map] at member
  rcases mem_map.mp member with ⟨old, inside, rfl⟩
  split
  · rw [sameHash, sameSlot]
    exact names old inside
  · exact names old inside

theorem namesSlots_eraseHash (names : NamesSlots named contents) (hash : Hash) :
    NamesSlots named (eraseHash hash contents) := fun entry member =>
  names entry ((Trie.toList_erase_sublist hash contents 0).subset member)

/-- The hashes with a slot have room in a trie. -/
def NamedRoom (named : Hash → UInt64 × Nat → Prop) (capacity : Nat) : Prop :=
  Trie.Room Hash.bit capacity hashBits 0 fun hash => ∃ slot, named hash slot

section
variable (room : NamedRoom named capacity)
include room

/-- An addition of a named entry to named entries has a result. -/
theorem insertEntry_names (sound : Sound capacity contents) (names : NamesSlots named contents)
    (here : named entry.hash entry.slot) :
    ∃ after visits, insertEntry capacity entry contents = some (after, visits) ∧
        NamesSlots named after := by
  cases known : lookup contents entry.hash with
  | some old => exact ⟨contents, _, insertEntry_of_known sound known, names⟩
  | none =>
    have inserts : (insertEntry capacity entry contents).isSome = true :=
      Trie.insert_isSome_of_room room (accepts_of_absent sound known) sound.low (by
          intro other member
          rcases mem_cons.mp member with rfl | member
          · exact ⟨_, here⟩
          · exact ⟨_, names other member⟩)
    rcases isSome_iff_exists.mp inserts with ⟨⟨after, visits⟩, inserted⟩
    refine ⟨after, visits, inserted, fun other member => ?_⟩
    rcases (insertEntry_inserted sound known inserted).mem_iff.mp member with rfl | member
    · exact here
    · exact names other member

/-- The replay of a record has a result and adds no other slots. -/
theorem replayRecord_names (sound : Sound capacity contents) (names : NamesSlots named contents)
    (here : record.NamesSlot named) :
    ∃ next, replayRecord capacity contents record = some next ∧
      Sound capacity next ∧ NamesSlots named next := by
  cases record with
  | addition entry =>
    rcases insertEntry_names room sound names here with ⟨after, visits, inserted, later⟩
    refine ⟨after, ?_, sound_insertEntry sound inserted, later⟩
    rw [replayRecord, inserted]
    rfl
  | removal hash => exact ⟨_, rfl, sound_eraseHash sound, namesSlots_eraseHash names hash⟩
  | increment entry =>
    exact ⟨_, rfl, sound_modify sound hash_indexEntryIncrement,
      namesSlots_modify names _ hash_indexEntryIncrement fun _ => rfl⟩
  | ejection hash date =>
    exact ⟨_, rfl, sound_modify sound (hash_indexEntrySetEjectionDate · date),
      namesSlots_modify names _ (hash_indexEntrySetEjectionDate · date) fun _ => rfl⟩
  | metadata entry =>
    exact ⟨_, rfl, sound_modify sound (hash_indexEntryCopyMetadata entry),
      namesSlots_modify names _ (hash_indexEntryCopyMetadata entry) fun _ => rfl⟩

end

end

variable {files : IndexFiles} {live : Index}

section
variable (env : Environment) (named : Hash → UInt64 × Nat → Prop)

/-- A log starts with records that name slots, and its rest is damaged. -/
def LogNames (bytes : Bytes) : Prop :=
  ∃ (records : List Record) (tail : Bytes),
    bytes = walLog env.xxh32 (records.map Record.frame) ++ tail ∧ Damaged env.xxh32 tail ∧
      ∀ record ∈ records, record.NamesSlot named

/-- A snapshot holds entries that name slots, in a sound trie. -/
def SnapshotNames (bucketSize : UInt64) (file : SnapshotFile) : Prop :=
  ∃ contents,
    file = snapshotOf env bucketSize file.id contents ∧
      Sound bucketSize.toNat contents ∧ NamesSlots named contents

/-- The files of an index, of which some snapshots may be unreadable. -/
structure FilesName (bucketSize : UInt64) (files : IndexFiles) : Prop where
  snapshots : ∀ file ∈ files.snapshots,
    Unreadable env file ∨ SnapshotNames env named bucketSize file
  logs : ∀ id, LogNames env named ((files.wals id).getD [])

/-- What a recovery gives. -/
structure RecoveredNames (index : Index) : Prop where
  wellFormed : index.WellFormed
  names : NamesSlots named index.contents

variable {env named} {bucketSize : UInt64} (room : NamedRoom named bucketSize.toNat)

include room

theorem LogNames.keeps {bytes : Bytes} (log : LogNames env named bytes) :
    LogKeeps env (NamesSlots named) bucketSize.toNat bytes := by
  rcases log with ⟨records, tail, rfl, damaged, all⟩
  rcases walReplayFrom_beginning env.xxh32 (indexReplayRecord env)
    (sized_frames records) damaged _ _ true 0 with ⟨count, stop, replays⟩
  refine ⟨records.take count, stop, ?_, ?_⟩
  · intro index
    rw [map_take]
    exact replays index
  · apply keeping_of_forall
    intro record member
    apply keeping_singleton
    intro contents sound names
    exact replayRecord_names room sound names (all record (mem_of_mem_take member))

theorem FilesName.keeps (filesName : FilesName env named bucketSize files) :
    FilesKeep env (NamesSlots named) bucketSize files where
  snapshots := filesName.snapshots
  logs := fun id => (filesName.logs id).keeps room

end

theorem RecoveredNames.slotOf {index : Index} (recovered : RecoveredNames named index) {hash : Hash}
    {slot : UInt64 × Nat} (found : index.slotOf hash = some slot) : named hash slot := by
  rw [Index.slotOf, entryOf_eq_lookup] at found
  rcases map_eq_some_iff.mp found with ⟨entry, here, rfl⟩
  rcases (lookup_eq_some_iff recovered.wellFormed.sound).mp here with ⟨member, rfl⟩
  exact recovered.names entry member

/-- The slot that the index has for a hash. -/
def Index.Named (index : Index) (hash : Hash) (slot : UInt64 × Nat) : Prop :=
  index.slotOf hash = some slot

/-- The hashes of an index have room in a trie. -/
theorem namedRoom {index : Index} (wellFormed : index.WellFormed) :
    NamedRoom index.Named index.bucketSize.toNat := by
  have sound := wellFormed.sound
  refine (Trie.room_of_within sound.within sound.low sound.routed).mono ?_
  rintro hash ⟨slot, named⟩
  rw [Index.Named, Index.slotOf, entryOf_eq_lookup] at named
  rcases map_eq_some_iff.mp named with ⟨entry, here, _⟩
  exact ⟨entry, (lookup_eq_some_iff sound).mp here⟩

/-- The files of a running index name its slots, and the next snapshot has a new name. -/
structure Traced (env : Environment) (index : Index) : Prop where
  idle : index.isRebuilding = false
  next : index.currentFile < index.nextId
  ids : ∀ file ∈ index.files.snapshots, file.id < index.currentFile
  snapshots : ∀ file ∈ index.files.snapshots, SnapshotNames env index.Named index.bucketSize file
  logs : ∀ id, ∃ records : List Record,
    index.walBytes id = walLog env.xxh32 (records.map Record.frame) ∧
      ∀ record ∈ records, record.NamesSlot index.Named

/-- The index has kept its slots and has logged additions with its slots. -/
structure Traces (env : Environment) (before after : Index) : Prop where
  named : ∀ hash slot, before.Named hash slot → after.Named hash slot
  logged : ∃ records, Extends env before after records ∧
    ∀ record ∈ records, record.NamesSlot after.Named

section
variable {env : Environment} {first second third before after : Index}

theorem Traces.refl (index : Index) : Traces env index index :=
  ⟨fun _ _ named => named, [], Extends.refl index, by simp⟩

theorem Traces.trans (early : Traces env first second) (late : Traces env second third) :
    Traces env first third := by
  rcases early.logged with ⟨records, extends_, names⟩
  rcases late.logged with ⟨records', extends_', names'⟩
  refine ⟨fun hash slot named =>
      late.named hash slot (early.named hash slot named),
    records ++ records', extends_.trans extends_', ?_⟩
  intro record member
  rcases mem_append.mp member with member | member
  · exact (names record member).mono late.named
  · exact names' record member

/-- Changes in place are traced if they log no additions. -/
theorem Touches.traces (touches : Touches before after)
    (extends_ : Extends env before after records)
    (names : ∀ record ∈ records, record.NamesSlot after.Named) : Traces env before after where
  named := fun hash slot named => by
    rw [Index.Named, touches.slotOf]
    exact named
  logged := ⟨records, extends_, names⟩

theorem Traced.step (traced : Traced env before) (traces : Traces env before after) :
    Traced env after := by
  rcases traces.logged with ⟨records, extends_, names⟩
  refine ⟨extends_.isRebuilding.trans traced.idle, ?_, ?_, ?_, ?_⟩
  · rw [extends_.currentFile, extends_.nextId]
    exact traced.next
  · rw [extends_.snapshots, extends_.currentFile]
    exact traced.ids
  · rw [extends_.snapshots, extends_.bucketSize]
    intro file member
    rcases traced.snapshots file member with ⟨contents, same, sound, all⟩
    exact ⟨contents, same, sound, fun entry inside => traces.named _ _ (all entry inside)⟩
  · intro id
    rcases traced.logs id with ⟨earlier, bytes, all⟩
    have kept : ∀ record ∈ earlier, record.NamesSlot after.Named :=
      fun record member => (all record member).mono traces.named
    by_cases live : id = before.wal
    · refine ⟨earlier ++ records, ?_, ?_⟩
      · rw [live] at bytes ⊢
        rw [extends_.log, bytes, traced.idle]
        simp
      · intro record member
        rcases mem_append.mp member with member | member
        · exact kept record member
        · exact names record member
    · exact ⟨earlier, (extends_.others id live).trans bytes, kept⟩

/-- A complete rollover writes the entries of the index to a new file. -/
theorem Traced.rollover (traced : Traced env before) (wellFormed : before.WellFormed) :
    Traced env (indexDebounce env .complete before) := by
  have touches := touches_indexDebounce env before .complete
  have named : (indexDebounce env .complete before).Named = before.Named :=
    funext fun hash => funext fun slot => by
      rw [Index.Named, touches.slotOf]
      rfl
  rcases ids_indexDebounce env traced.next traced.ids with ⟨next, ids⟩
  refine ⟨?_, next, ids, ?_, ?_⟩
  · rw [indexDebounce_complete, indexPrune_eq (rolledOver env before)]
    exact traced.idle
  · rw [named, touches.bucketSize]
    intro file member
    rcases snapshots_indexDebounce traced.ids member with old | rfl
    · exact traced.snapshots file old
    · refine ⟨before.contents, rfl, wellFormed.sound, fun entry listed => ?_⟩
      rw [Index.contents, Trie.toList_map] at listed
      rcases mem_map.mp listed with ⟨ref, inside, rfl⟩
      exact slotOf_hashOf wellFormed inside
  · rw [named]
    intro id
    rcases walBytes_indexDebounce env before id with none_ | same
    · exact ⟨[], none_, by simp⟩
    · rw [same]
      exact traced.logs id

end

section
variable (env : Environment) (index : Index) (ref : EntryRef)

variable {env index}

/-- The additions that are logged for a new object are those of entries of the index. -/
theorem traces_indexAdd (wellFormed : index.WellFormed) (absent : indexFind index entry.hash = none)
    {touched after : Index} (touches : Touches (index.allocEntry entry) touched)
    (traces : Traces env (index.allocEntry entry) touched)
    (added : indexAdd env touched index.nextRef = some after) : Traces env index after := by
  have adds := adds_indexAdd wellFormed absent touches added
  have ready := touches.wellFormed (wellFormed_allocEntry wellFormed entry)
  obtain ⟨root, visits, _, spec, same, extends_⟩ :=
    indexAdd_objects env ready (indexFind_new_of_touches touches wellFormed absent) added
  have created : Traces env index (index.allocEntry entry) := by
    refine ⟨fun hash slot named => ?_, [], extends_allocEntry env index entry, by simp⟩
    rw [Index.Named, Index.slotOf, entryOf_eq_lookup,
      contents_allocEntry wellFormed, ← entryOf_eq_lookup]
    exact named
  refine (created.trans traces).trans ⟨?_, _, extends_, ?_⟩
  · intro hash slot named
    rw [Index.Named, touches.slotOf, Index.slotOf, entryOf_eq_lookup,
      contents_allocEntry wellFormed, ← entryOf_eq_lookup] at named
    rw [Index.Named, adds.slotOf wellFormed, if_neg]
    · exact named
    · rintro rfl
      rw [Index.entryOf, absent] at named
      cases named
  · intro record member
    rw [storedRecords, Visit.storedIn_map] at member
    rcases mem_map.mp member with ⟨_, stored, rfl⟩
    rcases mem_map.mp stored with ⟨ref, visited, rfl⟩
    have inside : ref ∈ indexToArray after := by
      rw [indexToArray, same.root, spec.mem_iff]
      rcases spec.stored with ⟨again, list, old⟩
      rw [list, mem_append, mem_singleton] at visited
      exact visited.symm.imp id (old ref)
    have named := slotOf_hashOf adds.wellFormed inside
    rw [Index.hashOf, same.entries] at named
    exact named

end

/-- After a crash each log is cut, and each snapshot is as it was or cannot be read. -/
structure IndexCrash (env : Environment) (live : Index) (files : IndexFiles) : Prop where
  snapshots : ∀ file ∈ files.snapshots, file ∈ live.files.snapshots ∨ Unreadable env file
  logs : ∀ id, ∃ intact, LogLeft env [] (live.walBytes id) ((files.wals id).getD []) intact

section
variable {env : Environment} (traced : Traced env live)
include traced

theorem Traced.filesName (crash : IndexCrash env live files) :
    FilesName env live.Named live.bucketSize files where
  snapshots := by
    intro file member
    rcases crash.snapshots file member with old | unreadable
    · exact .inr (traced.snapshots file old)
    · exact .inl unreadable
  logs := by
    intro id
    rcases traced.logs id with ⟨records, bytes, names⟩
    rcases crash.logs id with ⟨_, frames, tail, count, sized, written, left, damaged, _⟩
    rw [nil_append] at written left
    have same := walLog_injective env.xxh32 sized (sized_frames records) (written.symm.trans bytes)
    refine ⟨records.take count, tail, ?_, damaged, fun record member =>
      names record (mem_of_mem_take member)⟩
    rw [left, same, map_take]

/-- A crash may leave all files as they are. -/
theorem Traced.indexCrash_self : IndexCrash env live live.files where
  snapshots := fun _ member => .inl member
  logs := by
    intro id
    rcases traced.logs id with ⟨records, bytes, _⟩
    refine ⟨_, records.map Record.frame, [], (records.map
      Record.frame).length, sized_frames records, bytes, ?_, damaged_nil, rfl⟩
    rw [take_length, append_nil]
    exact bytes

/-- Whatever a crash leaves, recovery finds no slots but those of the index. -/
theorem Traced.indexCreate (wellFormed : live.WellFormed) (crash : IndexCrash env live files)
    (write : SnapshotWrite) (configured : UInt64) (maxSnapshots maxWals : Nat) :
    ∃ recovered code, indexCreate env write files configured maxSnapshots maxWals =
          some (recovered, code) ∧ recovered.WellFormed ∧
        ∀ hash slot, recovered.slotOf hash = some slot → live.slotOf hash = some slot := by
  have empty : NamesSlots live.Named (.leaf []) := by
    intro entry member
    cases member
  rcases indexCreate_keeps empty ((traced.filesName crash).keeps (namedRoom wellFormed)) with
    ⟨recovered, code, created, spec⟩
  have names : RecoveredNames live.Named recovered := ⟨spec.wellFormed, spec.holds⟩
  exact ⟨recovered, code, created, spec.wellFormed, fun hash slot found => names.slotOf found⟩

end

end Liboffs.BlockCache
