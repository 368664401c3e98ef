import Liboffs.BlockCache.CacheKeys
import Liboffs.BlockCache.SlotStoreSteps

/-!
# What the messages to the cache do to index and slots

A message leaves the slots that the index names as they are, or forgets some
of them, or adds one for a new block, or follows a defragmentation.  Nothing
but these effects enters into the invariants that join the index and the
section store.
-/

namespace Liboffs.BlockCache

open Library Library.ByteOrder Library.FileSlots List Option

/-- The index has forgotten some objects and holds the others. -/
structure Forgets (before after : Index) : Prop where
  wellFormed : after.WellFormed
  nextRef : after.nextRef = before.nextRef
  hashOf : after.hashOf = before.hashOf
  slot : ∀ ref, (after.entries ref).slot = (before.entries ref).slot
  find : ∀ hash, indexFind after hash = none ∨ indexFind after hash = indexFind before hash

variable {before first second third : Index} {hash : Hash} {now : UInt64} {ref : EntryRef}
  {force : Bool} {result : CacheGcResult} {data : Option Bytes} {step : CacheStep}

theorem Touches.forgets {after : Index} (touches : Touches before after)
    (wellFormed : before.WellFormed) : Forgets before after :=
  { touches with
      wellFormed := touches.wellFormed wellFormed
      find := fun hash => .inr (touches.indexFind hash) }

theorem Removes.forgets {after : Index}
    (removes : Removes before after hash) : Forgets before after :=
  { removes with
    hashOf := by
      funext ref
      rw [Index.hashOf, Index.hashOf, removes.entries]
    slot := fun ref => by rw [removes.entries]
    find := fun other => by
      rw [removes.find]
      split
      · exact .inl rfl
      · exact .inr rfl }

theorem Forgets.trans (early : Forgets first second)
    (late : Forgets second third) : Forgets first third :=
  ⟨late.wellFormed, late.nextRef.trans early.nextRef, late.hashOf.trans early.hashOf,
    fun ref => (late.slot ref).trans (early.slot ref), fun hash => by
      rcases late.find hash with forgotten | found
      · exact .inl forgotten
      · rw [found]
        exact early.find hash⟩

theorem Forgets.slotOf {after : Index} (forgets : Forgets before after) {slot : UInt64 × Nat}
    (named : after.slotOf hash = some slot) : before.slotOf hash = some slot := by
  rcases slotOf_eq_some_iff.mp named with ⟨ref, found, equal⟩
  refine slotOf_eq_some_iff.mpr ⟨ref, ?_, by rw [← forgets.slot, equal]⟩
  rcases forgets.find hash with forgotten | same
  · rw [forgotten] at found
    cases found
  · rw [← same, found]

/-- The objects of the index name other slots than before. -/
structure Moves (before after : Index) (place : UInt64 → Nat → Nat) : Prop where
  wellFormed : after.WellFormed
  nextRef : after.nextRef = before.nextRef
  hashOf : after.hashOf = before.hashOf
  find : ∀ hash, indexFind after hash = indexFind before hash
  slotOf : ∀ hash, after.slotOf hash =
    (before.slotOf hash).map fun slot => (slot.1, place slot.1 slot.2)

/-- The index has forgotten some objects; the section store is the same. -/
structure CacheForgets (before after : Cache) : Prop where
  index : Forgets before.index after.index
  store : after.store = before.store

theorem CacheTouches.forgets {before after : Cache} (touches : CacheTouches before after)
    (wellFormed : before.index.WellFormed) : CacheForgets before after :=
  ⟨touches.index.forgets wellFormed, touches.store⟩

theorem CacheForgets.trans {first second third : Cache} (early : CacheForgets first second)
    (late : CacheForgets second third) : CacheForgets first third :=
  ⟨early.index.trans late.index, late.store.trans early.store⟩

theorem forgets_without (wellFormed : cache.index.WellFormed) :
    CacheForgets cache (cache.without world hash) :=
  ⟨(removes_indexRemove wellFormed).forgets, rfl⟩

/-- Every slot that the index names is occupied and named by one hash. -/
structure SlotsOwned (cache : Cache) : Prop where
  wellFormed : cache.index.WellFormed
  consistent : Consistent cache.store
  occupied : ∀ hash slot, cache.index.slotOf hash = some slot → cache.store.Occupied slot.1 slot.2
  unique : ∀ first second slot, cache.index.slotOf first = some slot →
    cache.index.slotOf second = some slot → first = second

/-- The step deletes an entry that the index holds. -/
def deletesEntry (cache : Cache) : CacheStep → Bool
  | .cache (.remove hash force) =>
    match cacheFindEntry cache hash with
    | some ref =>
      let entry := cache.index.entries ref
      (force || (entry.ephemeralCount = 0 && entry.pinCount = 0)) &&
        (indexFind cache.index hash).isSome
    | none => false
  | .cache (.ephemeral .release hash) =>
    match cacheFindEntry cache hash with
    | some ref =>
      (cache.index.entries ref).ephemeralCount = 1 && (indexFind cache.index hash).isSome
    | none => false
  | .cache (.gc keep force) =>
    (indexToArray cache.index).any fun ref =>
      gcVerdict keep force (cache.index.entries ref) = .deleted
  | .cache (.putGroupEnd group abort) =>
    match cache.putGroups.find? fun receipt =>
        receipt.group = group with
    | some receipt =>
      abort && cache.deleteBlocksOnPutFailure && receipt.hashes.any fun hash =>
          (indexFind cache.index hash).isSome
    | none => false
  | _ => false

/-- The effects of a step, which deletes entries only where it may. -/
inductive SlotEffect (deletes : Prop) (before after : Cache) : Prop where
  | touched (index : Touches before.index after.index)
      (store : Keeps before.store after.store)
  | forgot (needed : deletes) (index : Forgets before.index after.index)
      (store : after.store = before.store)
  | added (put : CachePut) (id : UInt64) (slot : Nat)
      (index : Adds before.index after.index put.block.hash (id, slot))
      (store : Places before.store after.store id slot put.block.data)
  | moved (place : UInt64 → Nat → Nat)
      (index : Moves before.index after.index place)
      (store : Relocates before.store after.store place)

/-- The effects that move no slot, with the puts that may be stored. -/
inductive StillEffect (deletes : Prop) (stores : CachePut → Prop)
    (before after : Cache) : Prop where
  | touched (index : Touches before.index after.index)
      (store : Keeps before.store after.store)
  | forgot (needed : deletes) (index : Forgets before.index after.index)
      (store : after.store = before.store)
  | added (put : CachePut) (ours : stores put) (id : UInt64) (slot : Nat)
      (index : Adds before.index after.index put.block.hash (id, slot))
      (store : Places before.store after.store id slot put.block.data)

section
variable {world : World} {cache after : Cache} {deletes : Prop} {stores : CachePut → Prop}

theorem CacheTouches.effect (touches : CacheTouches cache after) (owned : SlotsOwned cache) :
    StillEffect deletes stores cache after :=
  .touched touches.index (by
    rw [touches.store]
    exact Keeps.refl owned.consistent)

theorem CacheForgets.effect (forgets : CacheForgets cache after) (needed : deletes) :
    StillEffect deletes stores cache after :=
  .forgot needed forgets.index forgets.store

theorem DeletesIf.effect (owned : SlotsOwned cache) {may : Bool}
    (done : DeletesIf world cache after hash may) :
    StillEffect ((may && (indexFind cache.index hash).isSome) = true) stores cache after := by
  rcases done with ⟨touched, changes, rfl⟩
  split
  · rename_i allowed
    cases known : indexFind cache.index hash with
    | none =>
      rw [← changes.index.indexFind] at known
      refine .touched ?_ ?_
      · rw [Cache.without, indexRemove_of_absent known]
        exact changes.index
      · rw [show (touched.without world hash).store = cache.store from changes.store]
        exact Keeps.refl owned.consistent
    | some ref =>
      exact ((changes.forgets owned.wellFormed).trans
        (forgets_without (changes.wellFormed owned.wellFormed))).effect
          (by simp [allowed])
  · exact changes.effect owned

theorem deletesEntry_remove :
    deletesEntry cache (.cache (.remove hash force)) =
      (removes cache hash force && (indexFind cache.index hash).isSome) := by
  simp only [deletesEntry, removes]
  cases cacheFindEntry cache hash <;> rfl

theorem deletesEntry_ephemeral :
    deletesEntry cache (.cache (.ephemeral op hash)) =
      (releasesLast cache op hash && (indexFind cache.index hash).isSome) := by
  cases op with
  | release =>
    simp only [deletesEntry, releasesLast]
    cases cacheFindEntry cache hash <;> rfl
  | _ => rfl

theorem effect_cacheGc (owned : SlotsOwned cache) {keep : Hash → Bool}
    (done : cacheGc world cache keep force = some (after, result)) :
    StillEffect (deletesEntry cache (.cache (.gc keep force)) = true) stores cache after := by
  by_cases deletes : deletesEntry cache (.cache (.gc keep force)) = true
  · have forgets : CacheForgets cache after :=
      cacheGc_rule (fun _ forgets => forgets.index.wellFormed)
        (fun _ hash _ forgets _ =>
          forgets.trans (forgets_without forgets.index.wellFormed))
        ((CacheTouches.refl cache).forgets owned.wellFormed) done
    exact forgets.effect deletes
  · have spared : doomedHashes keep force cache.index (indexToArray cache.index) = [] := by
      simpa [doomedHashes, deletesEntry] using deletes
    rw [cacheGc_cases done, spared]
    exact (CacheTouches.refl _).effect owned

theorem deleteRecorded_of_absent (absent : ∀ hash ∈ hashes, indexFind cache.index hash = none) :
    deleteRecorded world hashes cache = some cache := by
  induction hashes with
  | nil => rfl
  | cons hash rest ih =>
    rw [deleteRecorded, absent hash mem_cons_self]
    exact ih fun other member => absent other (mem_cons_of_mem _ member)

theorem effect_cachePutGroupEnd (owned : SlotsOwned cache) {group : UInt32} {abort : Bool}
    (done : cachePutGroupEnd world cache group abort = some after) :
    StillEffect (deletesEntry cache (.cache (.putGroupEnd group abort)) = true) stores
      cache after := by
  rcases cachePutGroupEnd_cases done with ⟨swept, ended, next, ran, rfl⟩
  by_cases deletes : deletesEntry cache (.cache (.putGroupEnd group abort)) = true
  · have forgets : CacheForgets cache swept :=
      deleteRecorded_rule
        (fun _ _ forgets touches => forgets.trans (touches.forgets forgets.index.wellFormed))
        (fun _ hash _ forgets _ =>
          forgets.trans (forgets_without forgets.index.wellFormed))
        ((CacheTouches.refl cache).forgets owned.wellFormed) ran
    exact .forgot deletes forgets.index forgets.store
  · have recorded : deletesEntry cache (.cache (.putGroupEnd group abort)) =
        (recordedHashes cache group abort).any fun hash => (indexFind cache.index hash).isSome := by
      simp only [deletesEntry, recordedHashes]
      cases cache.putGroups.find? fun receipt => receipt.group = group with
      | none => rfl
      | some receipt => cases abort && cache.deleteBlocksOnPutFailure <;> rfl
    rw [recorded] at deletes
    rw [deleteRecorded_of_absent (by simpa using deletes)] at ran
    cases ran
    exact .touched (.refl _) (Keeps.refl owned.consistent)

/-- The arrival of a read touches entry objects at most. -/
theorem ReceiveEffect.touches {sectionId sectionIndex : UInt64} {block : Option Block}
    (effect : ReceiveEffect world cache sectionId sectionIndex data after block) :
    Touches cache.index after.index ∧ after.store = cache.store := by
  cases effect with
  | ignored | mismatched => exact ⟨.refl _, rfl⟩
  | verified _ _ _ _ _ _ _ remembers => exact ⟨remembers.rest.index, remembers.rest.store⟩

theorem GetEffect.effect (reliable : Reliable world.io) (owned : SlotsOwned cache)
    {get : CacheGet} {outcome : GetOutcome} (done : GetEffect world cache get after outcome) :
    StillEffect deletes stores cache after := by
  have keeps {ref : EntryRef} {store : Store} (reads : Reads world cache ref store) :
      Keeps cache.store store := by
    rcases store with ⟨sections, disk⟩
    rcases reads with ⟨data, reads⟩
    rcases sectionsRead_consistent reliable owned.consistent (cache.index.entries ref).sectionId
      (cache.index.entries ref).sectionIndex.toNat with ⟨⟨_, _⟩, _, _, read, keeps, _⟩
    cases reads.symm.trans read
    exact keeps
  cases done with
  | answered | recalled | waiting => exact .touched (.refl _) (Keeps.refl owned.consistent)
  | missed ref store reads direct => exact .touched (.refl _) (keeps reads)
  | loaded ref block store _ found hash reads remembers direct =>
    refine .touched remembers.rest.index ?_
    rw [remembers.rest.store]
    exact keeps reads

theorem effect_cachePut (reliable : Reliable world.io) (owned : SlotsOwned cache) {put : CachePut}
    {result : CachePutResult} (done : cachePut world cache put now = some (after, result))
    (ours : stores put) : StillEffect deletes stores cache after := by
  unfold cachePut at done
  split at done
  · rename_i ref _
    cases done
    exact ((touches_index cache (touches_raiseEntryFib cache.index ref _)).trans
      (touches_acquireClaim world _ ref _)).effect owned
  · rename_i absent
    split at done
    · cases done
      exact (CacheTouches.refl _).effect owned
    · rcases bind_eq_some_iff.mp done with ⟨⟨sections, disk, written⟩, wrote, done⟩
      have writes := writes_sectionsWrite reliable owned.consistent wrote
      simp only at done
      rcases writes with ⟨failed, keeps⟩ | ⟨stored, places⟩
      · rw [if_neg failed] at done
        cases done
        exact .touched (.refl _) keeps
      · rw [if_pos stored] at done
        rcases stores_cachePutWritten (by exact absent) done with ⟨_, _, store, adds⟩
        have added := adds owned.wellFormed
        simp only [newEntry, IndexEntry.slot, UInt64.toNat_ofNat',
          Nat.mod_eq_of_lt (lt_trans places.small (by decide : 2 ^ 32 < 2 ^ 64))] at added
        refine .added put ours _ _ added ?_
        rw [store]
        exact places

theorem slot_relocateEntry (bound : relocated relocations entry.slot.1 entry.slot.2 < 2 ^ 64) :
    (relocateEntry relocations entry).slot = (entry.slot.1,
        relocated relocations entry.slot.1 entry.slot.2) := by
  change relocated relocations entry.sectionId entry.sectionIndex.toNat < 2 ^ 64 at bound
  change _ = (entry.sectionId, relocated relocations entry.sectionId entry.sectionIndex.toNat)
  unfold relocated at bound ⊢
  unfold relocateEntry
  cases found : relocations.find? fun relocation =>
      relocation.sectionId = entry.sectionId ∧ relocation.oldIndex = entry.sectionIndex.toNat with
  | none => rfl
  | some relocation =>
    simp only [found] at bound
    simp only [IndexEntry.slot, UInt64.toNat_ofNat', Nat.mod_eq_of_lt bound]

theorem relocateEntries_eq (distinct : refs.Nodup) :
    relocateEntries relocations refs index =
      { index with
        entries := fun ref =>
          if ref ∈ refs then relocateEntry relocations (index.entries ref)
          else index.entries ref } := by
  induction refs generalizing index with
  | nil => simp [relocateEntries]
  | cons first rest ih =>
    rw [nodup_cons] at distinct
    rw [relocateEntries, ih distinct.2]
    simp only [Index.setEntry, Index.mk.injEq, true_and, and_true]
    funext ref
    by_cases same : ref = first
    · subst same
      simp [distinct.1]
    · simp [same]

/-- The entries follow the relocations that the section store reports. -/
theorem moves_relocateEntries (wellFormed : index.WellFormed)
    (bound : ∀ hash slot, index.slotOf hash = some slot →
      relocated relocations slot.1 slot.2 < 2 ^ 64) :
    Moves index (relocateEntries relocations (indexToArray index) index)
      (relocated relocations) := by
  have distinct : (indexToArray index).Nodup := wellFormed.distinct.of_map
  generalize equal : relocateEntries relocations (indexToArray index) index = after
  rw [relocateEntries_eq distinct] at equal
  have root : after.root = index.root := by rw [← equal]
  have entries (ref : EntryRef) : after.entries ref =
      if ref ∈ indexToArray index then
        relocateEntry relocations (index.entries ref)
      else index.entries ref := by rw [← equal]
  have hashOf : after.hashOf = index.hashOf := by
    funext ref
    simp only [Index.hashOf, entries]
    split
    · exact hash_relocateEntry
    · rfl
  have find (hash : Hash) : indexFind after hash = indexFind index hash := by
    rw [indexFind, indexFind, hashOf, root]
  refine ⟨wellFormed_of_hashOf wellFormed root (by rw [← equal])
    (by rw [← equal]) hashOf, by rw [← equal], hashOf, find, fun hash => ?_⟩
  simp only [Index.slotOf, Index.entryOf, find]
  cases found : indexFind index hash with
  | none => rfl
  | some ref =>
    have member := ((indexFind_eq_some_iff wellFormed).mp found).1
    have fits := bound hash _ (slotOf_eq_some_iff.mpr ⟨ref, found, rfl⟩)
    simp only [map_some, entries]
    rw [if_pos (show ref ∈ indexToArray index from member), slot_relocateEntry fits]

theorem Moves.touches (moves : Moves first second place) (late : Touches second third) :
    Moves first third place where
  wellFormed := late.wellFormed moves.wellFormed
  nextRef := late.nextRef.trans moves.nextRef
  hashOf := late.hashOf.trans moves.hashOf
  find := fun hash => (late.indexFind hash).trans (moves.find hash)
  slotOf := fun hash => (late.slotOf hash).trans (moves.slotOf hash)

section
variable (reliable : Reliable world.io) (owned : SlotsOwned cache) (threshold : Nat → Nat → Bool)
  (write : SnapshotWrite)
include reliable owned threshold write

theorem moves_cacheDefragment :
    ∃ place, Moves cache.index (cacheDefragment world cache threshold write).1.index place ∧
        Relocates cache.store (cacheDefragment world cache threshold write).1.store place := by
  have relocates := relocates_sectionsDefragment reliable threshold owned.consistent
  unfold cacheDefragment
  simp only
  split
  · rename_i empty
    have unmoved := isEmpty_iff.mp empty
    refine ⟨_, ⟨owned.wellFormed, rfl, rfl, fun _ => rfl, fun hash => ?_⟩, relocates⟩
    change cache.index.slotOf hash = _
    rw [show (sectionsDefragment world.io threshold cache.store.1
      cache.store.2).2.2.relocations = [] from unmoved]
    simp [relocated]
  · refine ⟨_, (moves_relocateEntries owned.wellFormed ?_).touches
      (touches_indexDebounce world.env _ write), relocates⟩
    intro hash slot named
    have used := relocates.occupied slot.1 slot.2 (owned.occupied hash slot named)
    have inside := (FreeMap.occupied_eq_true.mp used).1
    exact lt_trans inside (lt_trans (relocates.consistent.small slot.1) (by decide))

end

def defragments : CacheStep → Bool
  | .cache (.defragment _ _) => true
  | _ => false

theorem stillEffect_cacheStep (reliable : Reliable world.io) (owned : SlotsOwned cache)
    (still : defragments step = false) (stepped : cacheStep world cache step = some after) :
    StillEffect (deletesEntry cache step = true)
      (fun put => ∃ now, step = .cache (.put put now)) cache after := by
  cases step with
  | sectionsRead sectionId sectionIndex =>
    rcases sectionsRead_consistent reliable owned.consistent sectionId
      sectionIndex with ⟨store, value, _, read, keeps, _⟩
    change sectionsRead world.io cache.sections _ _ cache.disk = _ at read
    simp only [cacheStep, read, map_some] at stepped
    cases stepped
    exact .touched (.refl _) keeps
  | sectionWriteMeta =>
    cases stepped
    exact .touched (.refl _)
      (keeps_sectionsWriteMetaLoop reliable owned.consistent owned.consistent.ahead)
  | cache message =>
    rcases map_eq_some_iff.mp stepped with ⟨dispatched, done, rfl⟩
    cases message with
    | put payload now =>
      rcases map_eq_some_iff.mp done with ⟨result, put, rfl⟩
      exact effect_cachePut reliable owned put ⟨now, rfl⟩
    | putGroupEnd group abort =>
      rcases map_eq_some_iff.mp done with ⟨result, ended, rfl⟩
      exact effect_cachePutGroupEnd owned ended
    | resize maxCapacityBytes =>
      cases done
      have keeps : Keeps cache.store ({ cache.sections with maxBytes := maxCapacityBytes.toNat },
            cache.disk) :=
        keeps_of_touch owned.consistent ⟨rfl, rfl, rfl, rfl⟩
          owned.consistent.distinct (fun _ => rfl) rfl
      unfold cacheResize
      split
      · exact .touched (.refl _) keeps
      · exact .touched (.refl _) keeps
    | gc keep force =>
      rcases map_eq_some_iff.mp done with ⟨result, swept, rfl⟩
      exact effect_cacheGc owned swept
    | get payload now =>
      rcases map_eq_some_iff.mp done with ⟨result, got, rfl⟩
      exact (cacheGet_cases got).effect reliable owned
    | remove hash force =>
      rcases map_eq_some_iff.mp done with ⟨result, removed, rfl⟩
      rw [deletesEntry_remove]
      exact (cacheRemove_cases removed).effect owned
    | readResult sectionId sectionIndex data now =>
      rcases map_eq_some_iff.mp done with ⟨result, read, rfl⟩
      rcases map_eq_some_iff.mp read with ⟨received, got, rfl⟩
      have touches := (cacheReceive_cases got).touches
      exact .touched touches.1 (touches.2.symm ▸ Keeps.refl owned.consistent)
    | defragment threshold write => cases still
    | indexSave write =>
      cases done
      exact (touches_index cache (touches_indexDebounce world.env cache.index write)).effect owned
    | ephemeral op hash =>
      rcases map_eq_some_iff.mp done with ⟨result, counted, rfl⟩
      rw [deletesEntry_ephemeral]
      exact (cacheEphemeral_cases counted).effect owned
    | pin pin hash =>
      cases done
      exact (touches_cachePin world cache).effect owned

theorem effect_cacheStep (reliable : Reliable world.io) (owned : SlotsOwned cache)
    (stepped : cacheStep world cache step = some after) :
    SlotEffect (deletesEntry cache step = true) cache after := by
  cases still : defragments step with
  | false =>
    cases stillEffect_cacheStep reliable owned still stepped with
    | touched index store => exact .touched index store
    | forgot needed index store => exact .forgot needed index store
    | added put ours id slot index store => exact .added put id slot index store
  | true =>
    unfold defragments at still
    split at still
    · cases stepped
      rcases moves_cacheDefragment reliable owned _ _ with ⟨place, moves, relocates⟩
      exact .moved place moves relocates
    · cases still

end

end Liboffs.BlockCache
