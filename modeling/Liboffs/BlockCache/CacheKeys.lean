import Liboffs.BlockCache.Cache
import Liboffs.BlockCache.IndexObjects
import Liboffs.Library.Runs

/-!
# What the messages to the cache do to its parts

The messages are made up of a few changes.  Objects of the index and slots of
the section store change in place, a new object is added under its hash, an
object is deleted, and the cache of blocks takes up or loses a block.  For
each message it is stated which of these changes it makes.  Nothing is assumed
about the outcomes of file operations here.
-/

namespace Liboffs.BlockCache

open Library Library.ByteOrder Library.FileSlots List Option Function

/-- Objects and files may have changed, but not the trie and the hashes. -/
structure SameKeys (before after : Index) : Prop where
  root : after.root = before.root
  nextRef : after.nextRef = before.nextRef
  bucketSize : after.bucketSize = before.bucketSize
  hashOf : after.hashOf = before.hashOf

namespace SameKeys

variable {first second third before after : Index}

theorem refl (index : Index) : SameKeys index index :=
  ⟨rfl, rfl, rfl, rfl⟩

theorem trans (early : SameKeys first second)
    (late : SameKeys second third) : SameKeys first third :=
  ⟨late.root.trans early.root, late.nextRef.trans early.nextRef,
    late.bucketSize.trans early.bucketSize, late.hashOf.trans early.hashOf⟩

section
variable (same : SameKeys before after)
include same

theorem wellFormed (wellFormed : before.WellFormed) : after.WellFormed :=
  wellFormed_of_hashOf wellFormed same.root same.nextRef same.bucketSize same.hashOf

theorem indexFind (hash : Hash) : indexFind after hash = indexFind before hash := by
  rw [BlockCache.indexFind, BlockCache.indexFind, same.root, same.hashOf]

theorem indexCount : indexCount after = indexCount before := by
  rw [BlockCache.indexCount, BlockCache.indexCount, same.root]

end

end SameKeys

theorem Touches.sameKeys {before after : Index} (touches : Touches before after) :
    SameKeys before after :=
  { touches with }

theorem hash_relocateEntry : (relocateEntry relocations entry).hash = entry.hash := by
  unfold relocateEntry
  split <;> rfl

theorem sameKeys_relocateEntries (relocations : List BlockRelocation) (refs : List EntryRef)
    (index : Index) : SameKeys index (relocateEntries relocations refs index) := by
  induction refs generalizing index with
  | nil => exact .refl index
  | cons ref rest ih =>
    have moved : SameKeys index (index.setEntry ref
          (relocateEntry relocations (index.entries ref))) :=
      ⟨rfl, rfl, rfl, hashOf_setEntry hash_relocateEntry⟩
    exact moved.trans (ih _)

variable {hash : Hash} {index : Index} {ref : EntryRef} {now : UInt64} {slot : UInt64 × Nat}

theorem Adds.touches (adds : Adds first second hash slot) (late : Touches second third) :
    Adds first third hash slot where
  wellFormed := late.wellFormed adds.wellFormed
  bucketSize := late.bucketSize.trans adds.bucketSize
  nextRef := late.nextRef.trans adds.nextRef
  absent := adds.absent
  find := fun other => (late.indexFind other).trans (adds.find other)
  hash_new := (congrFun late.hashOf _).trans adds.hash_new
  slot_new := (late.slot _).trans adds.slot_new
  hashOf := fun ref old => (congrFun late.hashOf ref).trans (adds.hashOf ref old)
  slot := fun ref old => (late.slot ref).trans (adds.slot ref old)

/-- An addition adds one object to the array of the index. -/
theorem Adds.mem_iff {before after : Index} (adds : Adds before after hash slot)
    (wellFormed : before.WellFormed) (ref : EntryRef) :
    ref ∈ indexToArray after ↔ ref = before.nextRef ∨ ref ∈ indexToArray before := by
  have found {ref : EntryRef} (member : ref ∈ indexToArray after) :=
    (indexFind_eq_some_iff adds.wellFormed).mpr ⟨member, rfl⟩
  constructor
  · intro member
    have here := found member
    rw [adds.find] at here
    split at here
    · exact .inl (Option.some.inj here).symm
    · exact .inr ((indexFind_eq_some_iff wellFormed).mp here).1
  · rintro (rfl | member)
    · have here : indexFind after hash = some before.nextRef := by
        rw [adds.find, if_pos rfl]
      exact ((indexFind_eq_some_iff adds.wellFormed).mp here).1
    · have old := (indexFind_eq_some_iff wellFormed).mpr ⟨member, rfl⟩
      have here : indexFind after (before.hashOf ref) = some ref := by
        rw [adds.find, if_neg, old]
        intro same
        rw [same, adds.absent] at old
        cases old
      exact ((indexFind_eq_some_iff adds.wellFormed).mp here).1

theorem nodup_indexToArray (wellFormed : index.WellFormed) : (indexToArray index).Nodup :=
  wellFormed.distinct.of_map

theorem Adds.indexCount {before after : Index} (adds : Adds before after hash slot)
    (wellFormed : before.WellFormed) : indexCount after = indexCount before + 1 := by
  have fresh : before.nextRef ∉ indexToArray before := fun member =>
    absurd (wellFormed.refs _ member) (lt_irrefl _)
  have perm : (indexToArray after).Perm (before.nextRef :: indexToArray before) := by
    apply (perm_ext_iff_of_nodup (nodup_indexToArray adds.wellFormed)
      (nodup_cons.mpr ⟨fresh, nodup_indexToArray wellFormed⟩)).mpr
    intro ref
    rw [adds.mem_iff wellFormed, mem_cons]
  exact perm.length_eq

theorem indexRemove_of_absent (absent : indexFind index hash = none) :
    indexRemove env index hash = index := by
  rw [indexRemove, absent]

/-- Objects and files may have changed; the other parts of the cache are the same. -/
structure Touched (before after : Cache) : Prop where
  keys : SameKeys before.index after.index
  rest : after =
    { before with index := after.index, sections := after.sections, disk := after.disk }

namespace Touched

variable {first second third before after : Cache}

theorem refl (cache : Cache) : Touched cache cache :=
  ⟨.refl _, rfl⟩

section
variable (touched : Touched before after)
include touched

theorem lru : after.lru = before.lru := by
  rw [touched.rest]

theorem type : after.type = before.type := by
  rw [touched.rest]

theorem pendingGets : after.pendingGets = before.pendingGets := by
  rw [touched.rest]

theorem entryCount : after.entryCount = before.entryCount := by
  rw [touched.rest]

theorem currentBytes : after.currentBytes = before.currentBytes := by
  rw [touched.rest]

theorem putGroups : after.putGroups = before.putGroups := by
  rw [touched.rest]

end

theorem trans (early : Touched first second)
    (late : Touched second third) : Touched first third := by
  constructor
  · exact early.keys.trans late.keys
  · rw [late.rest, early.rest]

end Touched

/-- Entry objects have been touched, and nothing else has changed. -/
structure CacheTouches (before after : Cache) : Prop extends Touched before after where
  index : Touches before.index after.index
  store : after.store = before.store

theorem CacheTouches.refl (cache : Cache) : CacheTouches cache cache :=
  ⟨.refl cache, .refl _, rfl⟩

theorem CacheTouches.trans (early : CacheTouches first second) (late : CacheTouches second third) :
    CacheTouches first third :=
  ⟨early.toTouched.trans late.toTouched, early.index.trans late.index, late.store.trans early.store⟩

/-- The cache without a hash, as `_block_cache_delete_entry` leaves it. -/
def Cache.without (world : World) (cache : Cache) (hash : Hash) : Cache :=
  { cache with
    index := indexRemove world.env cache.index hash
    entryCount := cache.entryCount - 1
    currentBytes := cache.currentBytes - cache.typeBytes
    lru := blockLruCacheDelete cache.lru hash }

/-- A block has been stored under a new hash. -/
structure Stores (before after : Cache) (put : CachePut) : Prop where
  absent : indexFind before.index put.block.hash = none
  index : before.index.WellFormed → ∃ slot, Adds before.index after.index put.block.hash slot
  lru : ∃ ejected, blockLruCachePut before.lruSize before.lru put.block
    before.index.nextRef = some (after.lru, ejected)
  entryCount : after.entryCount = before.entryCount + 1
  currentBytes : after.currentBytes = before.currentBytes + before.typeBytes
  putGroups : after.putGroups = putGroupRecord before.putGroups put.putGroup put.block.hash
  rest : after =
    { before with
      index := after.index
      sections := after.sections
      disk := after.disk
      lru := after.lru
      entryCount := after.entryCount
      currentBytes := after.currentBytes
      putGroups := after.putGroups }

/-- The cache of blocks has been given a block. -/
structure Remembers (before after : Cache) (block : Block) (ref : EntryRef) : Prop where
  counter : ∀ other, (after.index.entries other).counter = (before.index.entries other).counter
  lru : ∃ ejected, blockLruCachePut before.lruSize before.lru block ref = some (after.lru, ejected)
  rest : CacheTouches { before with lru := after.lru } after

theorem counter_setEntry (same : entry.counter = (index.entries ref).counter) :
    ((index.setEntry ref entry).entries other).counter = (index.entries other).counter := by
  simp only [Index.setEntry, update_apply]
  split
  · rename_i equal
    rw [same, equal]
  · rfl

section
variable (world : World) (cache : Cache)

theorem touches_index (touches : Touches cache.index index) :
    CacheTouches cache { cache with index } :=
  ⟨⟨touches.sameKeys, rfl⟩, touches, rfl⟩

theorem touched_withStore (store : Store) : Touched cache (cache.withStore store) :=
  ⟨.refl _, rfl⟩

theorem touches_acquireClaim (ref : EntryRef) (acquire : Bool) :
    CacheTouches cache (acquireClaim world cache ref acquire) := by
  unfold acquireClaim
  split
  · exact touches_index cache (touches_setEntryMetadata world.env _ ref)
  · exact .refl cache

theorem touches_cacheClearPins (ref : EntryRef) :
    CacheTouches cache (cacheClearPins world cache ref) := by
  unfold cacheClearPins
  split
  · exact touches_index cache (touches_setEntryMetadata world.env _ ref)
  · exact .refl cache

theorem touches_cachePin : CacheTouches cache (cachePin world cache pin hash).1 := by
  unfold cachePin
  split
  · exact touches_index cache (touches_setEntryMetadata world.env _ _)
  · exact .refl cache

theorem remembers_cacheRemember {cache after : Cache} {block : Block}
    (remembered : cacheRemember world now cache block ref = some after) :
    Remembers cache after block ref := by
  rcases map_eq_some_iff.mp remembered with ⟨put, found, rfl⟩
  have ejected : CacheTouches { cache with lru := put.1 }
      (cacheEject world now { cache with lru := put.1 } put.2) := by
    cases put.2 with
    | none => exact .refl _
    | some ref => exact touches_index _ (touches_indexSetEntryEjection world.env _ ref)
  have lru := ejected.lru
  refine ⟨fun other => ?_, ⟨put.2, by rw [found, lru]⟩, ?_⟩
  · cases put.2 with
    | none => rfl
    | some ref =>
      have logged := (sameEntries_logRecord world.env cache.index
        (.ejection (cache.index.hashOf ref) now)).entries
      refine (counter_setEntry ?_).trans (by rw [logged])
      rw [logged]
      rfl
  · rw [lru]
    exact ejected

end

variable {put : CachePut} {outcome : GetOutcome} {sectionId sectionIndex : UInt64}
  {data : Option Bytes} {step : CacheStep}

section
variable {world : World} {cache after : Cache}

variable {result : CachePutResult}

theorem stores_cachePutWritten {written : SectionsWriteResult}
    (absent : indexFind cache.index put.block.hash = none)
    (done : cachePutWritten world cache put now written = some (after, result)) :
    Stores cache after put ∧ result.result = .new ∧ after.store = cache.store ∧
      (cache.index.WellFormed → Adds cache.index after.index put.block.hash
        (newEntry put written.sectionId written.sectionIndex).slot) := by
  rcases bind_eq_some_iff.mp done with ⟨kept, remembered, done⟩
  rcases map_eq_some_iff.mp done with ⟨index, added, equal⟩
  cases equal
  have keeps := remembers_cacheRemember world remembered
  have claimed := touches_acquireClaim world
    { kept with
      index
      entryCount := kept.entryCount + 1
      currentBytes := kept.currentBytes + kept.typeBytes
      putGroups := putGroupRecord kept.putGroups put.putGroup put.block.hash }
    cache.index.nextRef put.acquireEphemeral
  have adds (wellFormed : cache.index.WellFormed) :=
    (adds_indexAdd wellFormed absent keeps.rest.index added).touches claimed.index
  refine ⟨⟨absent, fun wellFormed => ⟨_, adds wellFormed⟩, ?_, ?_, ?_, ?_, ?_⟩, rfl,
    claimed.store.trans keeps.rest.store, adds⟩
  · rcases keeps.lru with ⟨ejected, found⟩
    refine ⟨ejected, ?_⟩
    rw [claimed.lru]
    exact found
  · rw [claimed.entryCount]
    exact congrArg (· + 1) keeps.rest.entryCount
  · rw [claimed.currentBytes]
    change kept.currentBytes + UInt64.ofNat kept.type.bytes = _
    rw [keeps.rest.currentBytes, keeps.rest.type]
    rfl
  · rw [claimed.putGroups]
    exact congrArg (putGroupRecord · put.putGroup put.block.hash) keeps.rest.putGroups
  · rw [claimed.rest, keeps.rest.rest]

theorem cachePut_cases (done : cachePut world cache put now = some (after, result)) :
    ((indexFind cache.index put.block.hash).isSome ∧
        Touched cache after ∧ result.result = .exists_) ∨
      (Touched cache after ∧ (result.result = .full ∨ result.result = .error)) ∨
      (refusesPut cache put = false ∧ Stores cache after put ∧ result.result = .new) := by
  unfold cachePut at done
  split at done
  · rename_i ref found
    cases done
    left
    rw [found]
    refine ⟨rfl, ?_, rfl⟩
    exact ((touches_index cache (touches_raiseEntryFib cache.index ref _)).trans
      (touches_acquireClaim world _ ref _)).toTouched
  · rename_i absent
    right
    split at done
    · cases done
      exact .inl ⟨.refl _, .inl rfl⟩
    · rename_i accepted
      rcases bind_eq_some_iff.mp done with ⟨⟨sections, disk, written⟩, wrote, done⟩
      have touched := touched_withStore cache (sections, disk)
      simp only at done
      split at done
      · right
        have unknown : indexFind (cache.withStore (sections, disk)).index
            put.block.hash = none := absent
        rcases stores_cachePutWritten unknown done with ⟨stores, new, _⟩
        exact ⟨by simpa using accepted, ⟨absent, stores.index, stores.lru, stores.entryCount,
          stores.currentBytes, stores.putGroups, stores.rest⟩, new⟩
      · cases done
        exact .inl ⟨touched, .inr rfl⟩

/-- `CACHE_REMOVE` goes through. -/
def removes (cache : Cache) (hash : Hash) (force : Bool) : Bool :=
  match cacheFindEntry cache hash with
  | some ref =>
    force || (decide ((cache.index.entries ref).ephemeralCount = 0) &&
      decide ((cache.index.entries ref).pinCount = 0))
  | none => false

/-- `CACHE_EPHEMERAL` takes back the last claim. -/
def releasesLast (cache : Cache) (op : EphemeralOp) (hash : Hash) : Bool :=
  match op, cacheFindEntry cache hash with
  | .release, some ref => decide ((cache.index.entries ref).ephemeralCount = 1)
  | _, _ => false

/-- A deletion behind a change in place, or no deletion. -/
def DeletesIf (world : World) (before after : Cache) (hash : Hash) (deletes : Bool) : Prop :=
  ∃ touched, CacheTouches before touched ∧
    after = if deletes then touched.without world hash else touched

variable {force : Bool} {keep : Hash → Bool} {result : CacheGcResult} {hashes : List Hash}
  {holds : Cache → Prop} {block : Option Block} {get : CacheGet}

theorem cacheRemove_cases {result : Int}
    (done : cacheRemove world cache hash force = some (after, result)) :
    DeletesIf world cache after hash (removes cache hash force) := by
  unfold cacheRemove at done
  cases found : cacheFindEntry cache hash with
  | none =>
    rw [found] at done
    cases done
    exact ⟨cache, .refl _, by simp [removes, found]⟩
  | some ref =>
    simp only [found] at done
    split at done
    · rename_i claimed
      cases done
      refine ⟨cache, .refl _, ?_⟩
      have positive := (UInt16.ne_of_lt claimed.1).symm
      simp [removes, found, claimed.2, positive]
    · rename_i unclaimed
      split at done
      · rename_i pinned
        cases done
        refine ⟨cache, .refl _, ?_⟩
        have positive := (UInt32.ne_of_lt pinned.1).symm
        simp [removes, found, pinned.2, positive]
      · rename_i unpinned
        rcases map_eq_some_iff.mp done with ⟨deleted, gone, equal⟩
        cases equal
        refine ⟨_, touches_cacheClearPins world cache ref, ?_⟩
        have allowed : removes cache hash force = true := by
          cases force with
          | true => simp [removes, found]
          | false =>
            simp only [and_true] at unclaimed unpinned
            have noClaims := UInt16.le_zero_iff.mp (UInt16.not_lt.mp unclaimed)
            have noPins := UInt32.le_zero_iff.mp (UInt32.not_lt.mp unpinned)
            simp [removes, found, noClaims, noPins]
        rw [allowed, if_pos rfl]
        exact (Option.some.inj gone).symm

theorem cacheEphemeral_cases {op : EphemeralOp} {result : CountResult}
    (done : cacheEphemeral world cache op hash = some (after, result)) :
    DeletesIf world cache after hash (releasesLast cache op hash) := by
  unfold cacheEphemeral at done
  cases found : cacheFindEntry cache hash with
  | none =>
    rw [found] at done
    cases done
    exact ⟨cache, .refl _, by simp [releasesLast, found]⟩
  | some ref =>
    have claims (claims : UInt16) : CacheTouches cache (setClaims world cache ref claims) :=
      touches_index cache (touches_setEntryMetadata world.env _ ref)
    simp only [found, cacheEphemeralEntry] at done
    cases op with
    | acquire =>
      simp only at done
      split at done
      · cases done
        exact ⟨cache, .refl _, rfl⟩
      · cases done
        exact ⟨_, claims _, rfl⟩
    | clear =>
      cases done
      split
      · exact ⟨_, claims 0, rfl⟩
      · exact ⟨cache, .refl _, rfl⟩
    | release =>
      simp only at done
      split at done
      · split at done
        · rename_i last
          rcases map_eq_some_iff.mp done with ⟨deleted, gone, equal⟩
          cases equal
          refine ⟨_, claims ((cache.index.entries ref).ephemeralCount - 1), ?_⟩
          simp only [releasesLast, found, last, decide_true, if_true]
          rw [last] at gone
          exact (Option.some.inj gone).symm
        · rename_i more
          cases done
          refine ⟨_, claims ((cache.index.entries ref).ephemeralCount - 1), ?_⟩
          simp [releasesLast, found, more]
      · rename_i unclaimed
        cases done
        have none_ := UInt16.le_zero_iff.mp (UInt16.not_lt.mp unclaimed)
        exact ⟨cache, .refl _, by simp [releasesLast, found, none_]⟩

/-- The cache without each of the hashes, one after the other. -/
def Cache.withoutAll (world : World) : List Hash → Cache → Cache
  | [], cache => cache
  | hash :: rest, cache => withoutAll world rest (cache.without world hash)

/-- The hashes that `CACHE_GC` deletes. -/
def doomedHashes (keep : Hash → Bool) (force : Bool) (index : Index)
    (refs : List EntryRef) : List Hash :=
  (refs.filter fun ref => gcVerdict keep force (index.entries ref) = .deleted).map index.hashOf

theorem entries_indexRemove : (indexRemove env index hash).entries = index.entries := by
  unfold indexRemove
  split
  · exact (sameEntries_logRecord env index (.removal hash)).entries
  · rfl

theorem hashOf_indexRemove : (indexRemove env index hash).hashOf = index.hashOf := by
  funext ref
  rw [Index.hashOf, Index.hashOf, entries_indexRemove]

theorem cacheGcLoop_cases
    (ran : cacheGcLoop world keep force refs cache result = some (after, total)) :
    after = cache.withoutAll world (doomedHashes keep force cache.index refs) := by
  induction refs generalizing cache result with
  | nil =>
    cases ran
    rfl
  | cons ref rest ih =>
    simp only [cacheGcLoop] at ran
    split at ran
    · rename_i doomed
      change cacheGcLoop world keep force rest (cache.without world _) _ = _ at ran
      rw [ih ran]
      simp [doomedHashes, doomed, Cache.withoutAll, Cache.without, entries_indexRemove,
        hashOf_indexRemove, Index.hashOf]
    · rename_i spared
      rw [ih ran]
      simp [doomedHashes, spared]

/-- A collection deletes the hashes that it has not spared. -/
theorem cacheGc_cases (done : cacheGc world cache keep force = some (after, result)) :
    after = cache.withoutAll world
      (doomedHashes keep force cache.index (indexToArray cache.index)) :=
  cacheGcLoop_cases done

theorem indexFind_without (wellFormed : cache.index.WellFormed) :
    indexFind (cache.without world hash).index other =
      if other = hash then none else indexFind cache.index other :=
  (removes_indexRemove wellFormed).find other

theorem wellFormed_without (wellFormed : cache.index.WellFormed) (hash : Hash) :
    (cache.without world hash).index.WellFormed :=
  (removes_indexRemove wellFormed).wellFormed

section
variable (sound : ∀ cache, holds cache → cache.index.WellFormed)
  (delete : ∀ cache hash ref, holds cache → indexFind cache.index hash = some ref →
    holds (cache.without world hash))
include sound delete

/-- What deletions of known hashes keep, a series of them keeps. -/
theorem withoutAll_rule (distinct : hashes.Nodup)
    (known : ∀ hash ∈ hashes, (indexFind cache.index hash).isSome) (initial : holds cache) :
    holds (cache.withoutAll world hashes) := by
  induction hashes generalizing cache with
  | nil => exact initial
  | cons hash rest ih =>
    rw [nodup_cons] at distinct
    rcases isSome_iff_exists.mp (known hash mem_cons_self) with ⟨ref, found⟩
    apply ih distinct.2 _ (delete cache hash ref initial found)
    intro other member
    rw [indexFind_without (sound cache initial), if_neg]
    · exact known other (mem_cons_of_mem _ member)
    · rintro rfl
      exact distinct.1 member

/-- What deletions of known hashes keep, a collection keeps. -/
theorem cacheGc_rule (initial : holds cache)
    (done : cacheGc world cache keep force = some (after, result)) : holds after := by
  have wellFormed := sound cache initial
  rw [cacheGc_cases done]
  refine withoutAll_rule sound delete (wellFormed.distinct.sublist (filter_sublist.map _))
    (fun _ member => ?_) initial
  rcases mem_map.mp member with ⟨ref, doomed, rfl⟩
  rw [(indexFind_eq_some_iff wellFormed).mpr ⟨(mem_filter.mp doomed).1, rfl⟩]
  rfl

end

/-- The hashes that the end of a group deletes. -/
def recordedHashes (cache : Cache) (group : UInt32) (abort : Bool) : List Hash :=
  match cache.putGroups.find? fun receipt => receipt.group = group with
  | some receipt =>
    if abort && cache.deleteBlocksOnPutFailure then receipt.hashes
    else []
  | none => []

theorem deleteRecorded_rule
    (touch : ∀ before after, holds before → CacheTouches before after → holds after)
    (delete : ∀ cache hash ref, holds cache → indexFind cache.index hash = some ref →
        holds (cache.without world hash)) (initial : holds cache)
    (ran : deleteRecorded world hashes cache = some after) : holds after := by
  induction hashes generalizing cache with
  | nil =>
    cases ran
    exact initial
  | cons hash rest ih =>
    rw [deleteRecorded] at ran
    split at ran
    · rename_i ref found
      have cleared := touches_cacheClearPins world cache ref
      apply ih _ ran
      apply delete _ hash ref (touch _ _ initial cleared)
      rw [cleared.keys.indexFind, found]
    · exact ih initial ran

/-- Deletions touch the index, the counters and the cache of blocks. -/
def Swept (before after : Cache) : Prop :=
  after =
    { before with
      index := after.index
      sections := after.sections
      disk := after.disk
      lru := after.lru
      currentBytes := after.currentBytes
      entryCount := after.entryCount }

theorem Swept.trans (early : Swept first second) (late : Swept second third) :
    Swept first third := by
  unfold Swept at early late ⊢
  rw [late, early]

theorem Touched.swept (touched : Touched cache after) : Swept cache after := by
  unfold Swept
  rw [touched.rest]

theorem swept_without : Swept cache (cache.without world hash) :=
  rfl

theorem swept_withoutAll : Swept cache (cache.withoutAll world hashes) := by
  induction hashes generalizing cache with
  | nil => rfl
  | cons hash rest ih => exact swept_without.trans ih

theorem entombPutGroup_eq (cache : Cache) (group : UInt32) :
    ∃ ended next, entombPutGroup cache group =
      { cache with endedPutGroups := ended, endedPutGroupsNext := next } := by
  unfold entombPutGroup
  split
  · exact ⟨_, _, rfl⟩
  · exact ⟨_, _, rfl⟩

/-- The end of a group deletes hashes and closes the receipt. -/
theorem cachePutGroupEnd_cases (done : cachePutGroupEnd world cache group abort = some after) :
    ∃ swept ended next, deleteRecorded world (recordedHashes cache group abort) cache = some swept ∧
        after =
          { swept with
            putGroups := swept.putGroups.eraseP fun receipt => receipt.group = group
            endedPutGroups := ended
            endedPutGroupsNext := next } := by
  unfold cachePutGroupEnd at done
  split at done
  · rename_i receipt found
    rcases map_eq_some_iff.mp done with ⟨swept, ran, rfl⟩
    rcases entombPutGroup_eq
      { swept with
        putGroups := swept.putGroups.eraseP fun receipt =>
          receipt.group = group } group with ⟨ended, next, equal⟩
    refine ⟨swept, ended, next, ?_, equal⟩
    simp only [recordedHashes, found]
    exact ran
  · rename_i absent
    cases done
    rcases entombPutGroup_eq cache group with ⟨ended, next, equal⟩
    refine ⟨cache, ended, next, ?_, ?_⟩
    · simp [recordedHashes, absent, deleteRecorded]
    · rw [equal, eraseP_of_forall_not]
      exact find?_eq_none.mp absent

/-- The slot of an entry has been read. -/
def Reads (world : World) (cache : Cache) (ref : EntryRef) (store : Store) : Prop :=
  ∃ data, sectionsRead world.io cache.sections (cache.index.entries ref).sectionId
    (cache.index.entries ref).sectionIndex.toNat cache.disk = some (store.1, store.2, data)

/-- What a get does, and how it is answered. -/
inductive GetEffect (world : World) (cache : Cache) (get : CacheGet) :
    Cache → GetOutcome → Prop where
  | answered (reply : Nat → CacheGetResult)
      (plain : ∀ receiver, (reply receiver).block = none ∧ (reply receiver).hash = get.hash ∧
        (reply receiver).receiver = receiver) :
      GetEffect world cache get cache (.answer get.replyTo reply none)
  | recalled (node : BlockLruNode) (entry : IndexEntry)
      (found : Recency.find BlockLruNode.hash get.hash cache.lru = some node) :
      GetEffect world cache get
        { cache with lru := Recency.touch BlockLruNode.hash get.hash cache.lru }
        (.answer get.replyTo (replyWith get.hash entry (some node.value) false) (some node.value))
  | waiting (ref : EntryRef) (receiver : Nat)
      (found : indexFind cache.index get.hash = some ref)
      (receives : get.replyTo = some receiver) :
      GetEffect world cache get
        { cache with pendingGets := ⟨get.hash, ref, receiver⟩ :: cache.pendingGets }
        ⟨[], [((cache.index.entries ref).sectionId, (cache.index.entries ref).sectionIndex)], none⟩
  | missed (ref : EntryRef) (store : Store)
      (reads : Reads world cache ref store)
      (direct : get.replyTo = none) :
      GetEffect world cache get (cache.withStore store) ⟨[], [], none⟩
  | loaded (ref : EntryRef) (block : Block) (store : Store) (after : Cache)
      (found : indexFind cache.index get.hash = some ref)
      (hash : block.hash = cache.index.hashOf ref)
      (reads : Reads world cache ref store)
      (remembers : Remembers (cache.withStore store) after block ref)
      (direct : get.replyTo = none) : GetEffect world cache get after ⟨[], [], some block⟩

theorem hash_of_verifiedBlock {data : Bytes} {block : Block}
    (verified : verifiedBlock world data hash = some block) : block.hash = hash := by
  unfold verifiedBlock at verified
  split at verified
  · unfold blockCreateExistingDataHash at verified
    split at verified
    · cases verified
      rfl
    · cases verified
  · cases verified

theorem cacheGet_cases (done : cacheGet world cache get now = some (after, outcome)) :
    GetEffect world cache get after outcome := by
  unfold cacheGet at done
  split at done
  · cases done
    exact .answered _ fun _ => ⟨rfl, rfl, rfl⟩
  · rename_i ref found
    simp only at done
    split at done
    · cases done
      exact .answered _ fun _ => ⟨rfl, rfl, rfl⟩
    · split at done
      · cases done
        exact .answered _ fun _ => ⟨rfl, rfl, rfl⟩
      · unfold cacheGetData at done
        split at done
        · rename_i block lru _ recalled
          rcases Prod.mk.inj recalled with ⟨value, rfl⟩
          rcases map_eq_some_iff.mp value with ⟨node, known, rfl⟩
          cases done
          exact .recalled node _ known
        · rename_i receiver _ receives
          cases done
          exact .waiting ref receiver found receives
        · rename_i _ direct
          rcases map_eq_some_iff.mp done with ⟨read, got, equal⟩
          cases equal
          rcases bind_eq_some_iff.mp got with ⟨⟨sections, disk, data⟩, read, got⟩
          have reads : Reads world cache ref (sections, disk) := ⟨data, read⟩
          simp only at got
          split at got
          · rename_i value verified
            rcases map_eq_some_iff.mp got with ⟨kept, remembered, equal⟩
            cases equal
            rcases bind_eq_some_iff.mp verified with ⟨bytes, _, verified⟩
            exact .loaded ref value _ _ found (hash_of_verifiedBlock verified)
              reads (remembers_cacheRemember world remembered) direct
          · cases got
            exact .missed ref _ reads direct

/-- What the arrival of a read does before the gets are answered. -/
inductive ReceiveEffect (world : World) (cache : Cache)
    (sectionId sectionIndex : UInt64) (data : Option Bytes) : Cache → Option Block → Prop where
  | ignored
      (idle : data = none ∨ cache.pendingGets.find?
        (waitsFor cache sectionId sectionIndex) = none) :
      ReceiveEffect world cache sectionId sectionIndex data cache none
  | mismatched (bytes : Bytes) (first : PendingGet)
      (found : cache.pendingGets.find? (waitsFor cache sectionId sectionIndex) = some first)
      (arrived : data = some bytes)
      (wrong : verifiedBlock world bytes (cache.index.hashOf first.entry) = none) :
      ReceiveEffect world cache sectionId sectionIndex data
        { cache with
          pendingGets := first :: cache.pendingGets.eraseP
            (waitsFor cache sectionId sectionIndex) } none
  | verified (bytes : Bytes) (first : PendingGet) (block : Block)
      (kept : Cache)
      (found : cache.pendingGets.find? (waitsFor cache sectionId sectionIndex) = some first)
      (arrived : data = some bytes)
      (right : verifiedBlock world bytes (cache.index.hashOf first.entry) = some block)
      (remembers : Remembers
        { cache with
          pendingGets := cache.pendingGets.eraseP (waitsFor cache sectionId sectionIndex) }
        kept block first.entry) :
      ReceiveEffect world cache sectionId sectionIndex data
        { kept with pendingGets := first :: kept.pendingGets } (some block)

theorem cacheReceive_cases
    (received : cacheReceive world cache sectionId sectionIndex data now = some (after, block)) :
    ReceiveEffect world cache sectionId sectionIndex data after block := by
  unfold cacheReceive at received
  cases data with
  | none =>
    cases received
    exact .ignored (.inl rfl)
  | some bytes =>
    cases found : cache.pendingGets.find? (waitsFor cache sectionId sectionIndex) with
    | none =>
      rw [found] at received
      cases received
      exact .ignored (.inr found)
    | some first =>
      simp only [found] at received
      split at received
      · rename_i value right
        rcases map_eq_some_iff.mp received with ⟨kept, remembered, equal⟩
        cases equal
        exact .verified bytes first value kept found rfl right
          (remembers_cacheRemember world remembered)
      · rename_i wrong
        cases received
        exact .mismatched bytes first found rfl wrong

theorem touched_cacheDefragment :
    Touched cache (cacheDefragment world cache threshold write).1 := by
  unfold cacheDefragment
  simp only
  split
  · exact touched_withStore cache _
  · have moved := sameKeys_relocateEntries (sectionsDefragment world.io threshold cache.sections
        cache.disk).2.2.relocations (indexToArray cache.index) cache.index
    exact ⟨moved.trans (touches_indexDebounce world.env _ write).sameKeys, rfl⟩

/-- The steps that change objects and slots in place and nothing else. -/
def quiet : CacheStep → Bool
  | .sectionsRead _ _ => true
  | .sectionWriteMeta => true
  | .cache (.defragment _ _) => true
  | .cache (.indexSave _) => true
  | .cache (.pin _ _) => true
  | _ => false

/-- What a step does to the parts of the cache. -/
inductive StepEffect (world : World) (cache : Cache) : CacheStep → Cache → Prop where
  | touched {step : CacheStep} {after : Cache} (still : quiet step = true)
      (changes : Touched cache after) : StepEffect world cache step after
  | unstored {put : CachePut} {now : UInt64} {after : Cache}
      (changes : Touched cache after) : StepEffect world cache (.cache (.put put now)) after
  | stored {put : CachePut} {now : UInt64} {after : Cache}
      (accepted : refusesPut cache put = false)
      (stores : Stores cache after put) : StepEffect world cache (.cache (.put put now)) after
  | ended {group : UInt32} {abort : Bool} (swept : Cache)
      (tombs : List UInt32) (next : Nat)
      (ran : deleteRecorded world (recordedHashes cache group abort) cache = some swept) :
      StepEffect world cache (.cache (.putGroupEnd group abort))
        { swept with
          putGroups := swept.putGroups.eraseP fun receipt => receipt.group = group
          endedPutGroups := tombs
          endedPutGroupsNext := next }
  | resized {maxCapacityBytes : UInt64} :
      StepEffect world cache (.cache (.resize maxCapacityBytes))
        (cacheResize cache maxCapacityBytes)
  | collected {keep : Hash → Bool} {force : Bool} {after : Cache}
      {result : CacheGcResult}
      (done : cacheGc world cache keep force = some (after, result)) :
      StepEffect world cache (.cache (.gc keep force)) after
  | got {get : CacheGet} {now : UInt64} {after : Cache}
      {outcome : GetOutcome} (effect : GetEffect world cache get after outcome) :
      StepEffect world cache (.cache (.get get now)) after
  | removed {hash : Hash} {force : Bool} {after : Cache}
      (done : DeletesIf world cache after hash (removes cache hash force)) :
      StepEffect world cache (.cache (.remove hash force)) after
  | counted {op : EphemeralOp} {hash : Hash} {after : Cache}
      (done : DeletesIf world cache after hash (releasesLast cache op hash)) :
      StepEffect world cache (.cache (.ephemeral op hash)) after
  | received {sectionId sectionIndex : UInt64} {data : Option Bytes}
      {now : UInt64} {ready : Cache} {block : Option Block}
      (effect : ReceiveEffect world cache sectionId sectionIndex data ready block) :
      StepEffect world cache
        (.cache (.readResult sectionId sectionIndex data now))
        (resolvePendingGets ready sectionId sectionIndex block).1

theorem cacheStep_cases (stepped : cacheStep world cache step = some after) :
    StepEffect world cache step after := by
  cases step with
  | sectionsRead sectionId sectionIndex =>
    rcases map_eq_some_iff.mp stepped with ⟨read, _, rfl⟩
    exact .touched rfl (touched_withStore cache _)
  | sectionWriteMeta =>
    cases stepped
    exact .touched rfl (touched_withStore cache _)
  | cache message =>
    rcases map_eq_some_iff.mp stepped with ⟨dispatched, done, rfl⟩
    cases message with
    | put payload now =>
      rcases map_eq_some_iff.mp done with ⟨result, put, rfl⟩
      rcases cachePut_cases put with ⟨_, changes, _⟩ | ⟨changes, _⟩ | ⟨accepted, stores, _⟩
      · exact .unstored changes
      · exact .unstored changes
      · exact .stored accepted stores
    | putGroupEnd group abort =>
      rcases map_eq_some_iff.mp done with ⟨result, ended, rfl⟩
      rcases cachePutGroupEnd_cases ended with ⟨swept, tombs, next, ran, rfl⟩
      exact .ended swept tombs next ran
    | resize maxCapacityBytes =>
      cases done
      exact .resized
    | gc keep force =>
      rcases map_eq_some_iff.mp done with ⟨result, swept, rfl⟩
      exact .collected swept
    | get payload now =>
      rcases map_eq_some_iff.mp done with ⟨result, got, rfl⟩
      exact .got (cacheGet_cases got)
    | remove hash force =>
      rcases map_eq_some_iff.mp done with ⟨result, removed, rfl⟩
      exact .removed (cacheRemove_cases removed)
    | readResult sectionId sectionIndex data now =>
      rcases map_eq_some_iff.mp done with ⟨result, read, rfl⟩
      rcases map_eq_some_iff.mp read with ⟨⟨ready, block⟩, got, rfl⟩
      exact .received (cacheReceive_cases got)
    | defragment threshold write =>
      cases done
      exact .touched rfl touched_cacheDefragment
    | indexSave write =>
      cases done
      exact .touched rfl ⟨(touches_indexDebounce world.env cache.index write).sameKeys, rfl⟩
    | ephemeral op hash =>
      rcases map_eq_some_iff.mp done with ⟨result, counted, rfl⟩
      exact .counted (cacheEphemeral_cases counted)
    | pin pin hash =>
      cases done
      exact .touched rfl (touches_cachePin world cache).toTouched

theorem Touched.wellFormed (touched : Touched cache after) (wellFormed : cache.index.WellFormed) :
    after.index.WellFormed :=
  touched.keys.wellFormed wellFormed

theorem DeletesIf.wellFormed (done : DeletesIf world cache after hash deletes)
    (wellFormed : cache.index.WellFormed) : after.index.WellFormed := by
  rcases done with ⟨touched, changes, rfl⟩
  have kept := changes.wellFormed wellFormed
  split
  · exact wellFormed_without kept hash
  · exact kept

theorem GetEffect.wellFormed (effect : GetEffect world cache get after outcome)
    (wellFormed : cache.index.WellFormed) : after.index.WellFormed := by
  cases effect with
  | answered | recalled | waiting | missed => exact wellFormed
  | loaded ref block store _ found hash reads remembers direct =>
    exact remembers.rest.wellFormed wellFormed

theorem ReceiveEffect.wellFormed
    (effect : ReceiveEffect world cache sectionId sectionIndex data after block)
    (wellFormed : cache.index.WellFormed) : after.index.WellFormed := by
  cases effect with
  | ignored | mismatched => exact wellFormed
  | verified bytes first value kept found arrived right remembers =>
    exact remembers.rest.wellFormed wellFormed

/-- No step harms the index, whatever file operations do. -/
theorem StepEffect.wellFormed (effect : StepEffect world cache step after)
    (wellFormed : cache.index.WellFormed) : after.index.WellFormed := by
  cases effect with
  | touched still changes => exact changes.wellFormed wellFormed
  | unstored changes => exact changes.wellFormed wellFormed
  | stored accepted stores =>
    rcases stores.index wellFormed with ⟨_, adds⟩
    exact adds.wellFormed
  | ended swept tombs next ran =>
    change swept.index.WellFormed
    exact deleteRecorded_rule (fun _ _ sound touched => touched.wellFormed sound)
      (fun _ hash _ sound _ => wellFormed_without sound hash) wellFormed ran
  | resized =>
    unfold cacheResize
    split <;> exact wellFormed
  | collected done =>
    exact cacheGc_rule (fun _ sound => sound)
      (fun _ hash _ sound _ => wellFormed_without sound hash) wellFormed done
  | got effect => exact effect.wellFormed wellFormed
  | removed done => exact done.wellFormed wellFormed
  | counted done => exact done.wellFormed wellFormed
  | received effect => exact effect.wellFormed wellFormed

end

end Liboffs.BlockCache
