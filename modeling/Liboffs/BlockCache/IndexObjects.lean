import Liboffs.BlockCache.IndexReplay

/-!
# The entry objects of the index

The cache holds references to entry objects, and an object may outlive its
place in the index.  For each operation it is stated which objects the index
holds afterwards, and which of them name other slots than before.
-/

namespace Liboffs.BlockCache

open Library.BucketTrie Library.FileSlots List Function Trie Index

/-- The section and the slot that an entry names. -/
def IndexEntry.slot (entry : IndexEntry) : UInt64 × Nat :=
  (entry.sectionId, entry.sectionIndex.toNat)

/-- The slot in which the index finds a block. -/
def Index.slotOf (index : Index) (hash : Hash) : Option (UInt64 × Nat) :=
  (index.entryOf hash).map IndexEntry.slot

variable {hash : Hash} {slot : UInt64 × Nat}

theorem slotOf_eq_some_iff :
    index.slotOf hash = some slot ↔ ∃ ref, indexFind index hash = some ref ∧
        (index.entries ref).slot = slot := by
  simp [slotOf, entryOf]

variable {ref : EntryRef}

theorem slotOf_hashOf (wellFormed : index.WellFormed) (member : ref ∈ indexToArray index) :
    index.slotOf (index.hashOf ref) = some (index.entries ref).slot :=
  slotOf_eq_some_iff.mpr ⟨ref, (indexFind_eq_some_iff wellFormed).mpr ⟨member, rfl⟩, rfl⟩

/-- Objects have changed, but not their hashes and slots. -/
structure Touches (before after : Index) : Prop where
  root : after.root = before.root
  nextRef : after.nextRef = before.nextRef
  bucketSize : after.bucketSize = before.bucketSize
  hashOf : after.hashOf = before.hashOf
  slot : ∀ ref, (after.entries ref).slot = (before.entries ref).slot

namespace Touches

variable {first second third before after : Index}

theorem refl (index : Index) : Touches index index :=
  ⟨rfl, rfl, rfl, rfl, fun _ => rfl⟩

theorem trans (early : Touches first second) (late : Touches second third) : Touches first third :=
  ⟨late.root.trans early.root, late.nextRef.trans early.nextRef,
    late.bucketSize.trans early.bucketSize, late.hashOf.trans early.hashOf,
    fun ref => (late.slot ref).trans (early.slot ref)⟩

theorem of_sameEntries (same : SameEntries before after)
    (bucketSize : after.bucketSize = before.bucketSize) : Touches before after :=
  { same with
    bucketSize := bucketSize
    hashOf := by
      funext ref
      rw [Index.hashOf, Index.hashOf, same.entries]
    slot := fun ref => by rw [same.entries] }

section
variable (touches : Touches before after)
include touches

theorem wellFormed (wellFormed : before.WellFormed) : after.WellFormed :=
  wellFormed_of_hashOf wellFormed touches.root touches.nextRef touches.bucketSize touches.hashOf

theorem indexFind (hash : Hash) : indexFind after hash = indexFind before hash := by
  rw [BlockCache.indexFind, BlockCache.indexFind, touches.root, touches.hashOf]

theorem slotOf (hash : Hash) : after.slotOf hash = before.slotOf hash := by
  rw [Index.slotOf, Index.slotOf, Index.entryOf, Index.entryOf,
    touches.indexFind, Option.map_map, Option.map_map]
  congr 1
  funext ref
  exact touches.slot ref

end

end Touches

section
variable (env : Environment) (index : Index) (ref : EntryRef)

theorem touches_setEntry (hash : entry.hash = index.hashOf ref)
    (slot : entry.slot = (index.entries ref).slot) : Touches index (index.setEntry ref entry) where
  root := rfl
  nextRef := rfl
  bucketSize := rfl
  hashOf := hashOf_setEntry hash
  slot := by
    intro other
    simp only [setEntry, update_apply]
    split
    · rename_i same
      rw [slot, same]
    · rfl

theorem touches_logRecord (record : Record) : Touches index (index.logRecord env record) :=
  .of_sameEntries (sameEntries_logRecord env index record)
    (extends_logRecord env index record).bucketSize

theorem touches_indexSetEntryEjection :
    Touches index (indexSetEntryEjection env index ref date) := by
  have logged := touches_logRecord env index (.ejection (index.hashOf ref) date)
  refine logged.trans (touches_setEntry _ ref ?_ ?_)
  · exact (congrFun logged.hashOf ref).symm
  · exact (logged.slot ref).symm

theorem touches_setEntryMetadata :
    Touches index (setEntryMetadata env index ref ephemeralCount pinCount) := by
  have changed : Touches index (index.setEntry ref
        (indexEntrySetMetadata (index.entries ref) ephemeralCount pinCount)) :=
    touches_setEntry index ref rfl rfl
  exact changed.trans (touches_logRecord env _ _)

theorem touches_raiseEntryFib (incomingFib : UInt32) :
    Touches index (raiseEntryFib index ref incomingFib) := by
  unfold raiseEntryFib
  split
  · exact touches_setEntry index ref rfl rfl
  · exact .refl index

theorem touches_indexDebounce (write : SnapshotWrite) :
    Touches index (indexDebounce env write index) := by
  cases write with
  | complete =>
    refine .of_sameEntries (sameEntries_indexDebounce index env) ?_
    rw [indexDebounce_complete, indexPrune_eq]
    rfl
  | failed written => exact ⟨rfl, rfl, rfl, rfl, fun _ => rfl⟩

end

/-- A new object has been added to the index under a new hash. -/
structure Adds (before after : Index) (hash : Hash) (slot : UInt64 × Nat) : Prop where
  wellFormed : after.WellFormed
  bucketSize : after.bucketSize = before.bucketSize
  nextRef : after.nextRef = before.nextRef + 1
  absent : indexFind before hash = none
  find : ∀ other, indexFind after other =
    if other = hash then some before.nextRef else indexFind before other
  hash_new : after.hashOf before.nextRef = hash
  slot_new : (after.entries before.nextRef).slot = slot
  hashOf : ∀ ref < before.nextRef, after.hashOf ref = before.hashOf ref
  slot : ∀ ref < before.nextRef, (after.entries ref).slot = (before.entries ref).slot

/-- The object of a hash has left the index. -/
structure Removes (before after : Index) (hash : Hash) : Prop where
  wellFormed : after.WellFormed
  bucketSize : after.bucketSize = before.bucketSize
  nextRef : after.nextRef = before.nextRef
  entries : after.entries = before.entries
  find : ∀ other, indexFind after other = if other = hash then none else indexFind before other

section
variable {env : Environment} {index : Index}

section
variable (wellFormed : index.WellFormed)
include wellFormed

theorem lt_nextRef_of_indexFind (found : indexFind index hash = some ref) : ref < index.nextRef :=
  wellFormed.refs ref ((indexFind_eq_some_iff wellFormed).mp found).1

theorem indexFind_eq_none_iff :
    indexFind index hash = none ↔ ∀ ref ∈ index.root.toList, index.hashOf ref ≠ hash :=
  find_eq_none_iff wellFormed.routed

/-- What a lookup gives is determined by the objects in the trie. -/
theorem indexFind_congr {after : Index} (later : after.WellFormed)
    (same : ∀ ref, ref ∈ after.root.toList ∧ after.hashOf ref = hash ↔
      ref ∈ index.root.toList ∧ index.hashOf ref = hash) :
    indexFind after hash = indexFind index hash := by
  cases found : indexFind index hash with
  | some ref =>
    exact (indexFind_eq_some_iff later).mpr ((same ref).mpr
      ((indexFind_eq_some_iff wellFormed).mp found))
  | none =>
    rw [indexFind_eq_none_iff later]
    intro ref member equal
    have here := (same ref).mp ⟨member, equal⟩
    exact (indexFind_eq_none_iff wellFormed).mp found ref here.1 here.2

theorem removes_indexRemove : Removes index (indexRemove env index hash) hash := by
  have later := wellFormed_indexRemove env wellFormed hash
  cases found : indexFind index hash with
  | none =>
    have same : indexRemove env index hash = index := by rw [indexRemove, found]
    rw [same]
    refine ⟨wellFormed, rfl, rfl, rfl, fun other => ?_⟩
    split
    · rename_i equal
      rw [equal, found]
    · rfl
  | some ref =>
    have logged := sameEntries_logRecord env index (.removal hash)
    have root : (indexRemove env index hash).root =
        index.root.erase Hash.bit index.hashOf hash 0 := by
      rw [indexRemove, found]
      rfl
    have entries : (indexRemove env index hash).entries = index.entries := by
      rw [indexRemove, found]
      exact logged.entries
    have hashOf : (indexRemove env index hash).hashOf = index.hashOf := by
      funext other
      rw [hashOf, hashOf, entries]
    have nextRef : (indexRemove env index hash).nextRef = index.nextRef := by
      rw [indexRemove, found]
      exact logged.nextRef
    have perm := perm_cons_erase found
    have refHash := ((indexFind_eq_some_iff wellFormed).mp found).2
    have distinct := ((perm.map index.hashOf).nodup_iff.mp wellFormed.distinct)
    rw [map_cons, nodup_cons, refHash] at distinct
    refine ⟨later, (extends_indexRemove env index hash).bucketSize,
      nextRef, entries, fun other => ?_⟩
    split
    · rename_i equal
      rw [equal, indexFind_eq_none_iff later, root, hashOf]
      intro other member equal
      exact distinct.1 (mem_map.mpr ⟨other, member, equal⟩)
    · rename_i different
      refine indexFind_congr wellFormed later fun candidate => ?_
      rw [root, hashOf, perm.mem_iff, mem_cons]
      constructor
      · rintro ⟨member, equal⟩
        exact ⟨.inr member, equal⟩
      · rintro ⟨rfl | member, equal⟩
        · exact absurd (equal.symm.trans refHash) different
        · exact ⟨member, equal⟩

end

section
variable {entry : IndexEntry} {touched : Index} (touches : Touches (index.allocEntry entry) touched)

theorem entries_allocEntry_of_lt (old : ref < index.nextRef) :
    (index.allocEntry entry).entries ref = index.entries ref :=
  update_of_ne (ne_of_lt old) _ _

include touches

theorem hashOf_new_of_touches : touched.hashOf index.nextRef = entry.hash := by
  rw [touches.hashOf, hashOf, entries_allocEntry]

theorem hashOf_old_of_touches (old : ref < index.nextRef) :
    touched.hashOf ref = index.hashOf ref := by
  rw [touches.hashOf, hashOf, entries_allocEntry_of_lt old, hashOf]

/-- A created object is not in the index yet. -/
theorem indexFind_new_of_touches (wellFormed : index.WellFormed)
    (absent : indexFind index entry.hash = none) :
    indexFind touched (touched.hashOf index.nextRef) = none := by
  have ready := touches.wellFormed (wellFormed_allocEntry wellFormed entry)
  rw [hashOf_new_of_touches touches, indexFind_eq_none_iff ready, touches.root]
  intro ref member equal
  rw [hashOf_old_of_touches touches (wellFormed.refs ref member)] at equal
  exact (indexFind_eq_none_iff wellFormed).mp absent ref member equal

end

theorem adds_indexAdd (wellFormed : index.WellFormed) {entry : IndexEntry}
    (absent : indexFind index entry.hash = none) {touched after : Index}
    (touches : Touches (index.allocEntry entry) touched)
    (added : indexAdd env touched index.nextRef = some after) :
    Adds index after entry.hash entry.slot := by
  have ready := touches.wellFormed (wellFormed_allocEntry wellFormed entry)
  have newHash := hashOf_new_of_touches touches
  have oldHash {ref : EntryRef} (old : ref < index.nextRef) := hashOf_old_of_touches touches old
  have root : touched.root = index.root := touches.root
  have unknown := indexFind_new_of_touches touches wellFormed absent
  have nextRef : touched.nextRef = index.nextRef + 1 := touches.nextRef
  have later := (indexAdd_of_absent env ready
    (by rw [nextRef]; exact Nat.lt_succ_self _) unknown added).1
  obtain ⟨grown, visits, _, spec, same, extends_⟩ := indexAdd_objects env ready unknown added
  have hashOf : after.hashOf = touched.hashOf := by
    funext ref
    rw [hashOf, hashOf, same.entries]
  refine ⟨later, extends_.bucketSize.trans touches.bucketSize,
    same.nextRef.trans nextRef, absent, ?_, by rw [hashOf, newHash], ?_, ?_, ?_⟩
  · intro other
    have member (ref : EntryRef) : ref ∈ after.root.toList ↔
        ref = index.nextRef ∨ ref ∈ index.root.toList := by
      rw [same.root, spec.mem_iff, root]
    split
    · rename_i equal
      refine (indexFind_eq_some_iff later).mpr ⟨?_, ?_⟩
      · exact (member _).mpr (.inl rfl)
      · rw [hashOf, newHash, equal]
    · rename_i different
      refine indexFind_congr wellFormed later fun ref => ?_
      rw [member, hashOf]
      constructor
      · rintro ⟨rfl | inside, equal⟩
        · exact absurd (equal.symm.trans newHash) different
        · rw [oldHash (wellFormed.refs ref inside)] at equal
          exact ⟨inside, equal⟩
      · rintro ⟨inside, equal⟩
        rw [oldHash (wellFormed.refs ref inside)]
        exact ⟨.inr inside, equal⟩
  · rw [same.entries]
    exact (touches.slot _).trans (by rw [entries_allocEntry])
  · intro ref old
    rw [hashOf, oldHash old]
  · intro ref old
    rw [same.entries]
    exact (touches.slot ref).trans (by rw [entries_allocEntry_of_lt old])

end

theorem Adds.slotOf {before after : Index} (adds : Adds before after hash slot)
    (wellFormed : before.WellFormed) (other : Hash) :
    after.slotOf other = if other = hash then some slot else before.slotOf other := by
  simp only [Index.slotOf, Index.entryOf, adds.find]
  split
  · simp only [Option.map_some, adds.slot_new]
  · cases found : indexFind before other with
    | none => rfl
    | some ref =>
      simp only [Option.map_some, adds.slot ref (lt_nextRef_of_indexFind wellFormed found)]

end Liboffs.BlockCache
