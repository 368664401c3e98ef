import Liboffs.BlockCache.IndexReplay
import Liboffs.BlockCache.Sections

/-!
# The block cache

The block cache joins the index, the section store and a cache of blocks in memory.  It is an
actor: a message that needs the content of a block sends a read to the section store and keeps the
request until the answer arrives.

The functions return nothing where the program would use freed memory or a section that could not
be created.
-/

namespace Liboffs.BlockCache

open Library Library.ByteOrder Library.FileSlots

/-- `block_size_e`. -/
inductive BlockSize where
  | mega
  | standard
  | mini
  | nano
deriving DecidableEq

def BlockSize.bytes : BlockSize → Nat
  | .mega => 1000000
  | .standard => 128000
  | .mini => 64000
  | .nano => 136

theorem BlockSize.bytes_pos (type : BlockSize) : 0 < type.bytes := by
  cases type <;> decide

/-- `block_t`. -/
structure Block where
  data : Bytes
  hash : Hash
deriving DecidableEq

/-- `block_create_existing_data_hash`. -/
def blockCreateExistingDataHash (data : Bytes) (hash : Hash) : Option Block :=
  if data.length ∈ [BlockSize.standard.bytes, BlockSize.mega.bytes,
      BlockSize.nano.bytes, BlockSize.mini.bytes] then
    some ⟨data, hash⟩
  else
    none

/-! ## The cache of blocks -/

/-- `block_lru_node_t`. -/
structure BlockLruNode where
  value : Block
  entry : EntryRef

def BlockLruNode.hash (node : BlockLruNode) : Hash :=
  node.value.hash

/-- `block_lru_cache_get`. -/
def blockLruCacheGet (lru : List BlockLruNode) (hash : Hash) : Option Block × List BlockLruNode :=
  ((Recency.find BlockLruNode.hash hash lru).map BlockLruNode.value,
    Recency.touch BlockLruNode.hash hash lru)

/-- `block_lru_cache_peek_entry`. -/
def blockLruCachePeekEntry (lru : List BlockLruNode) (hash : Hash) : Option EntryRef :=
  (Recency.find BlockLruNode.hash hash lru).map BlockLruNode.entry

/-- `block_lru_cache_delete`. -/
def blockLruCacheDelete (lru : List BlockLruNode) (hash : Hash) : List BlockLruNode :=
  Recency.without BlockLruNode.hash hash lru

/--
`block_lru_cache_put`, with the ejected entry.  The last node leaves a full cache also if the hash
is cached; if it is that node, the program goes on with freed memory.
-/
def blockLruCachePut (size : Nat) (lru : List BlockLruNode) (block : Block)
    (entry : EntryRef) : Option (List BlockLruNode × Option EntryRef) :=
  if size = 0 then
    some (lru, none)
  else
    let known := Recency.find BlockLruNode.hash block.hash lru
    let node := known.getD ⟨block, entry⟩
    if lru.length = size then
      match lru.getLast? with
      | some last =>
        if known.isSome = true ∧ last.hash = block.hash then
          none
        else
          some (node :: Recency.without BlockLruNode.hash block.hash lru.dropLast, some last.entry)
      | none => some ([node], none)
    else
      some (node :: Recency.without BlockLruNode.hash block.hash lru, none)

/-! ## State -/

/-- `pending_get_t`. -/
structure PendingGet where
  hash : Hash
  entry : EntryRef
  replyTo : Nat
deriving DecidableEq

/-- `bc_put_group_t`. -/
structure PutGroup where
  group : UInt32
  hashes : List Hash

/-- `block_cache_t` with the files of its sections. -/
structure Cache where
  type : BlockSize
  index : Index
  sections : Sections
  disk : Disk
  lruSize : Nat
  lru : List BlockLruNode
  pendingGets : List PendingGet
  maxCapacityBytes : UInt64
  currentBytes : UInt64
  entryCount : UInt64
  deleteBlocksOnPutFailure : Bool
  putGroups : List PutGroup
  endedPutGroups : List UInt32
  endedPutGroupsNext : Nat

/--
The libraries of the index, the file operations, the digest, and a bound on the rounds of a write.
-/
structure World where
  env : Environment
  io : Io
  hashData : Bytes → Hash
  rounds : Nat

/-- The section store of a cache with its files. -/
def Cache.store (cache : Cache) : Store :=
  (cache.sections, cache.disk)

/-- Replace the section store and its files. -/
def Cache.withStore (cache : Cache) (store : Store) : Cache :=
  { cache with sections := store.1, disk := store.2 }

/-- The size of a block as the counters count it. -/
def Cache.typeBytes (cache : Cache) : UInt64 :=
  UInt64.ofNat cache.type.bytes

section
variable (world : World)

/-! ## Helpers -/

/-- Record the ejection of an entry from the cache of blocks. -/
def cacheEject (now : UInt64) (cache : Cache) : Option EntryRef → Cache
  | some ref =>
    { cache with index := indexSetEntryEjection world.env cache.index ref now }
  | none => cache

/-- Put a block in the cache of blocks, with the ejection that follows. -/
def cacheRemember (now : UInt64) (cache : Cache) (block : Block) (ref : EntryRef) : Option Cache :=
  (blockLruCachePut cache.lruSize cache.lru block ref).map fun put =>
    cacheEject world now { cache with lru := put.1 } put.2

/-- `_block_cache_delete_entry`; the store does not handle the message that frees the slot. -/
def blockCacheDeleteEntry (cache : Cache) (hash : Hash) (ref : EntryRef) : Option Cache :=
  let sectionIndex := (cache.index.entries ref).sectionIndex
  let removed :=
    { cache with
      index := indexRemove world.env cache.index hash
      entryCount := cache.entryCount - 1
      currentBytes := cache.currentBytes - cache.typeBytes
      lru := blockLruCacheDelete cache.lru hash }
  (sectionsDispatch world.io removed.sections removed.disk
    (.sectionDeallocate sectionIndex.toNat)).map removed.withStore

/-- Set the pins of an entry to zero, and log it if there were any. -/
def cacheClearPins (cache : Cache) (ref : EntryRef) : Cache :=
  if 0 < (cache.index.entries ref).pinCount then
    { cache with
      index := setEntryMetadata world.env cache.index ref
        (cache.index.entries ref).ephemeralCount 0 }
  else
    cache

/-- The entry of a hash, from the cache of blocks or from the index. -/
def cacheFindEntry (cache : Cache) (hash : Hash) : Option EntryRef :=
  match blockLruCachePeekEntry cache.lru hash with
  | some ref => some ref
  | none => indexFind cache.index hash

/-- `block_cache_verify_read_hash` and the block of the data. -/
def verifiedBlock (data : Bytes) (hash : Hash) : Option Block :=
  if world.hashData data = hash then
    blockCreateExistingDataHash data hash
  else
    none

/-! ## Groups of puts -/

/-- `_put_group_record`. -/
def putGroupRecord (groups : List PutGroup) (group : UInt32) (hash : Hash) : List PutGroup :=
  if group = 0 then
    groups
  else if (groups.find? fun receipt => receipt.group = group).isSome then
    groups.map fun receipt =>
      if receipt.group = group then
        { receipt with hashes := receipt.hashes ++ [hash] }
      else
        receipt
  else
    groups ++ [⟨group, [hash]⟩]

/-- The deletions of `_put_group_end_dispatch`. -/
def deleteRecorded : List Hash → Cache → Option Cache
  | [], cache => some cache
  | hash :: rest, cache =>
    match indexFind cache.index hash with
    | some ref =>
      (blockCacheDeleteEntry world (cacheClearPins world cache ref) hash
        ref).bind (deleteRecorded rest)
    | none => deleteRecorded rest cache

/-- The number of ended groups that are remembered. -/
def putGroupTombstones : Nat := 1024

/-- Remember an ended group, in the place of the oldest one if need be. -/
def entombPutGroup (cache : Cache) (group : UInt32) : Cache :=
  if cache.endedPutGroups.length < putGroupTombstones then
    { cache with endedPutGroups := cache.endedPutGroups ++ [group] }
  else
    { cache with
      endedPutGroups := cache.endedPutGroups.set cache.endedPutGroupsNext group
      endedPutGroupsNext := (cache.endedPutGroupsNext + 1) % putGroupTombstones }

/-- `CACHE_PUT_GROUP_END`. -/
def cachePutGroupEnd (cache : Cache) (group : UInt32) (abort : Bool) : Option Cache :=
  match cache.putGroups.find? fun receipt => receipt.group = group with
  | some receipt =>
    let hashes :=
      if abort && cache.deleteBlocksOnPutFailure then receipt.hashes
      else []
    (deleteRecorded world hashes cache).map fun cache =>
      entombPutGroup
        { cache with
          putGroups := cache.putGroups.eraseP fun receipt => receipt.group = group }
        group
  | none => some (entombPutGroup cache group)

/-! ## Puts -/

/-- `cache_put_payload_t`. -/
structure CachePut where
  block : Block
  incomingFib : UInt32
  acquireEphemeral : Bool
  putGroup : UInt32

/-- The result codes of `CACHE_PUT`. -/
inductive PutCode where
  | new
  | exists_
  | error
  | full
deriving DecidableEq

/-- `cache_put_result_payload_t`. -/
structure CachePutResult where
  result : PutCode
  promoted : Bool
  fib : UInt32
  hash : Option Hash

/-- Take a claim on an entry, as long as the counter has room. -/
def acquireClaim (cache : Cache) (ref : EntryRef) (acquire : Bool) : Cache :=
  if acquire && (cache.index.entries ref).ephemeralCount < 0xffff then
    { cache with
      index := setEntryMetadata world.env cache.index ref
        ((cache.index.entries ref).ephemeralCount + 1)
        (cache.index.entries ref).pinCount }
  else
    cache

/-- `CACHE_PUT` of a known block. -/
def cachePutKnown (cache : Cache) (put : CachePut) (ref : EntryRef) : Cache × CachePutResult :=
  let index := raiseEntryFib cache.index ref put.incomingFib
  let raised := acquireClaim world { cache with index } ref put.acquireEphemeral
  (raised,
    { result := .exists_
      promoted := decide ((cache.index.entries ref).counter.fib < put.incomingFib)
      fib := (index.entries ref).counter.fib
      hash := some put.block.hash })

/-- The entry of a new block in a slot. -/
def newEntry (put : CachePut) (sectionId : UInt64) (sectionIndex : Nat) : IndexEntry :=
  let entry := indexEntryCreate put.block.hash
  { entry with
    counter := { entry.counter with fib := put.incomingFib }
    sectionId
    sectionIndex := UInt64.ofNat sectionIndex }

/-- `CACHE_PUT` of a new block behind the write of its data. -/
def cachePutWritten (cache : Cache) (put : CachePut) (now : UInt64)
    (written : SectionsWriteResult) : Option (Cache × CachePutResult) :=
  let ref := cache.index.nextRef
  let entry := newEntry put written.sectionId written.sectionIndex
  (cacheRemember world now
    { cache with index := cache.index.allocEntry entry } put.block ref).bind fun cache =>
    (indexAdd world.env cache.index ref).map fun index =>
      let added :=
        { cache with
          index
          entryCount := cache.entryCount + 1
          currentBytes := cache.currentBytes + cache.typeBytes
          putGroups := putGroupRecord cache.putGroups put.putGroup put.block.hash }
      (acquireClaim world added ref put.acquireEphemeral,
        { result := .new
          promoted := false
          fib := (index.entries ref).counter.fib
          hash := some put.block.hash })

/-- A new block is turned away: for want of room, or as a straggler. -/
def refusesPut (cache : Cache) (put : CachePut) : Bool :=
  (decide (0 < cache.maxCapacityBytes) &&
      decide (cache.maxCapacityBytes < cache.currentBytes + cache.typeBytes)) ||
    (decide (put.putGroup ≠ 0) && decide (put.putGroup ∈ cache.endedPutGroups))

/-- `CACHE_PUT`. -/
def cachePut (cache : Cache) (put : CachePut) (now : UInt64) : Option (Cache × CachePutResult) :=
  match indexFind cache.index put.block.hash with
  | some ref => some (cachePutKnown world cache put ref)
  | none =>
    if refusesPut cache put then
      some (cache, ⟨.full, false, 0, none⟩)
    else
      (sectionsWrite world.io world.rounds put.block.data cache.sections
        cache.disk).bind fun (sections, disk, written) =>
          let stored := cache.withStore (sections, disk)
          if written.result = 0 then
            cachePutWritten world stored put now written
          else
            some (stored, ⟨.error, false, 0, none⟩)

/-! ## Deletions -/

/-- `CACHE_REMOVE`, with the result. -/
def cacheRemove (cache : Cache) (hash : Hash) (force : Bool) : Option (Cache × Int) :=
  match cacheFindEntry cache hash with
  | none => some (cache, 0)
  | some ref =>
    if 0 < (cache.index.entries ref).ephemeralCount ∧ force = false then
      some (cache, -4)
    else if 0 < (cache.index.entries ref).pinCount ∧ force = false then
      some (cache, -3)
    else
      (blockCacheDeleteEntry world (cacheClearPins world cache ref) hash
        ref).map fun cache => (cache, 0)

/-- `cache_gc_result_payload_t`. -/
structure CacheGcResult where
  entriesTotal : Nat
  blocksKept : Nat
  skippedEphemeralClaimed : Nat
  skippedPinned : Nat
  blocksDeleted : Nat

/-- What `CACHE_GC` does with an entry. -/
inductive GcVerdict where
  | kept
  | claimed
  | pinned
  | deleted
deriving DecidableEq

/-- The checks of `CACHE_GC`; the filter is a function of the hash. -/
def gcVerdict (keep : Hash → Bool) (force : Bool) (entry : IndexEntry) : GcVerdict :=
  if keep entry.hash then
    .kept
  else if force = false ∧ 0 < entry.ephemeralCount then
    .claimed
  else if force = false ∧ 0 < entry.pinCount then
    .pinned
  else
    .deleted

/-- Count an entry of `CACHE_GC`. -/
def CacheGcResult.count (result : CacheGcResult) : GcVerdict → CacheGcResult
  | .kept =>
    { result with entriesTotal := result.entriesTotal + 1, blocksKept := result.blocksKept + 1 }
  | .claimed =>
    { result with
      entriesTotal := result.entriesTotal + 1
      skippedEphemeralClaimed := result.skippedEphemeralClaimed + 1 }
  | .pinned =>
    { result with
      entriesTotal := result.entriesTotal + 1
      skippedPinned := result.skippedPinned + 1 }
  | .deleted =>
    { result with
      entriesTotal := result.entriesTotal + 1
      blocksDeleted := result.blocksDeleted + 1 }

/-- The loop of `CACHE_GC`. -/
def cacheGcLoop (keep : Hash → Bool) (force : Bool) :
    List EntryRef → Cache → CacheGcResult → Option (Cache × CacheGcResult)
  | [], cache, result => some (cache, result)
  | ref :: rest, cache, result =>
    let entry := cache.index.entries ref
    let verdict := gcVerdict keep force entry
    if verdict = .deleted then
      (blockCacheDeleteEntry world cache entry.hash ref).bind fun cache =>
        cacheGcLoop keep force rest cache (result.count verdict)
    else
      cacheGcLoop keep force rest cache (result.count verdict)

/-- `CACHE_GC`. -/
def cacheGc (cache : Cache) (keep : Hash → Bool) (force : Bool) : Option (Cache × CacheGcResult) :=
  cacheGcLoop world keep force (indexToArray cache.index) cache ⟨0, 0, 0, 0, 0⟩

/-! ## Gets -/

/-- `cache_get_payload_t`; a get without a receiver is synchronous. -/
structure CacheGet where
  hash : Hash
  peerServe : Bool
  noData : Bool
  replyTo : Option Nat

/-- `CACHE_GET_RESULT` with its receiver. -/
structure CacheGetResult where
  receiver : Nat
  hash : Hash
  block : Option Block
  fib : UInt32
  entryExisted : Bool
  ephemeralEntry : Bool
  noData : Bool

/-- What a get leaves: replies, reads it has sent, and its own result. -/
structure GetOutcome where
  replies : List CacheGetResult
  reads : List (UInt64 × UInt64)
  result : Option Block

def GetOutcome.answer (replyTo : Option Nat)
    (reply : Nat → CacheGetResult) (result : Option Block) : GetOutcome :=
  match replyTo with
  | some receiver => ⟨[reply receiver], [], none⟩
  | none => ⟨[], [], result⟩

/-- The reply about an entry, with a block or without. -/
def replyWith (hash : Hash) (entry : IndexEntry) (block : Option Block)
    (noData : Bool) (receiver : Nat) : CacheGetResult where
  receiver := receiver
  hash := hash
  block := block
  fib := entry.counter.fib
  entryExisted := true
  ephemeralEntry := decide (0 < entry.ephemeralCount)
  noData := noData

def replyAbsent (hash : Hash) (receiver : Nat) : CacheGetResult where
  receiver := receiver
  hash := hash
  block := none
  fib := 0
  entryExisted := false
  ephemeralEntry := false
  noData := false

/-- The read of `CACHE_GET` without a receiver. -/
def cacheGetSync (cache : Cache) (ref : EntryRef) (now : UInt64) : Option (Cache × Option Block) :=
  let entry := cache.index.entries ref
  (sectionsRead world.io cache.sections entry.sectionId entry.sectionIndex.toNat cache.disk).bind
      fun (sections, disk, data) =>
        let cache := cache.withStore (sections, disk)
        match data.bind (verifiedBlock world · entry.hash) with
        | some block =>
          (cacheRemember world now cache block ref).map fun cache => (cache, some block)
        | none => some (cache, none)

/-- `CACHE_GET` of an entry whose data are asked for. -/
def cacheGetData (cache : Cache) (get : CacheGet) (ref : EntryRef)
    (now : UInt64) : Option (Cache × GetOutcome) :=
  let entry := cache.index.entries ref
  match blockLruCacheGet cache.lru get.hash, get.replyTo with
  | (some block, lru), replyTo =>
    some ({ cache with lru },
      .answer replyTo (replyWith get.hash entry (some block) false) (some block))
  | (none, _), some receiver =>
    some
      ({ cache with pendingGets := ⟨get.hash, ref, receiver⟩ :: cache.pendingGets },
        ⟨[], [(entry.sectionId, entry.sectionIndex)], none⟩)
  | (none, _), none => (cacheGetSync world cache ref now).map fun read => (read.1, ⟨[], [], read.2⟩)

/-- `CACHE_GET`. -/
def cacheGet (cache : Cache) (get : CacheGet) (now : UInt64) : Option (Cache × GetOutcome) :=
  match indexFind cache.index get.hash with
  | none => some (cache, .answer get.replyTo (replyAbsent get.hash) none)
  | some ref =>
    let entry := cache.index.entries ref
    if get.peerServe && !indexEntryIsServable entry then
      some (cache, .answer get.replyTo (replyAbsent get.hash) none)
    else if get.noData then
      some (cache, .answer get.replyTo (replyWith get.hash entry none true) none)
    else
      cacheGetData world cache get ref now

/-- A pending get waits for a slot. -/
def waitsFor (cache : Cache) (sectionId sectionIndex : UInt64) (pending : PendingGet) : Bool :=
  let entry := cache.index.entries pending.entry
  decide (entry.sectionId = sectionId) && decide (entry.sectionIndex = sectionIndex)

/--
`SECTIONS_READ_RESULT` before the answers: the data are checked against the first pending get for
the slot.
-/
def cacheReceive (cache : Cache) (sectionId sectionIndex : UInt64)
    (data : Option Bytes) (now : UInt64) : Option (Cache × Option Block) :=
  match data, cache.pendingGets.find? (waitsFor cache sectionId sectionIndex) with
  | some data, some first =>
    let others := cache.pendingGets.eraseP (waitsFor cache sectionId sectionIndex)
    let hash := (cache.index.entries first.entry).hash
    match verifiedBlock world data hash with
    | some block =>
      (cacheRemember world now { cache with pendingGets := others }
        block first.entry).map fun cache =>
          ({ cache with pendingGets := first :: cache.pendingGets }, some block)
    | none => some ({ cache with pendingGets := first :: others }, none)
  | _, _ => some (cache, none)

/-- `_block_cache_resolve_pending_gets`. -/
def resolvePendingGets (cache : Cache) (sectionId sectionIndex : UInt64)
    (block : Option Block) : Cache × List CacheGetResult :=
  ({ cache with
      pendingGets := cache.pendingGets.filter fun pending =>
        !waitsFor cache sectionId sectionIndex pending },
    (cache.pendingGets.filter (waitsFor cache sectionId sectionIndex)).map fun pending =>
        replyWith pending.hash (cache.index.entries pending.entry) block false pending.replyTo)

/-- `SECTIONS_READ_RESULT`. -/
def cacheReadResult (cache : Cache) (sectionId sectionIndex : UInt64)
    (data : Option Bytes) (now : UInt64) : Option (Cache × List CacheGetResult) :=
  (cacheReceive world cache sectionId sectionIndex data now).map fun received =>
      resolvePendingGets received.1 sectionId sectionIndex received.2

/-! ## Defragmentation -/

/-- The first relocation of the slot of an entry. -/
def relocateEntry (relocations : List BlockRelocation) (entry : IndexEntry) : IndexEntry :=
  match relocations.find? fun relocation =>
      relocation.sectionId = entry.sectionId ∧ relocation.oldIndex = entry.sectionIndex.toNat with
  | some relocation => { entry with sectionIndex := UInt64.ofNat relocation.newIndex }
  | none => entry

/-- The loop of `CACHE_DEFRAGMENT` over the entries of the index. -/
def relocateEntries (relocations : List BlockRelocation) : List EntryRef → Index → Index
  | [], index => index
  | ref :: rest, index =>
    relocateEntries relocations rest
      (index.setEntry ref (relocateEntry relocations (index.entries ref)))

/-- The results of `CACHE_DEFRAGMENT`, whose result code is zero. -/
structure CacheDefragmentResult where
  sectionsDefragmented : Nat
  blocksRelocated : Nat

/-- `CACHE_DEFRAGMENT`, with the outcome of the write of the snapshot. -/
def cacheDefragment (cache : Cache) (threshold : Nat → Nat → Bool)
    (write : SnapshotWrite) : Cache × CacheDefragmentResult :=
  let done := sectionsDefragment world.io threshold cache.sections cache.disk
  let moved := cache.withStore (done.1, done.2.1)
  let relocations := done.2.2.relocations
  let count := done.2.2.sectionsDefragmented
  if relocations.isEmpty then
    (moved, ⟨count, 0⟩)
  else
    let index := relocateEntries relocations (indexToArray cache.index) cache.index
    ({ moved with index := indexDebounce world.env write index }, ⟨count, relocations.length⟩)

/-! ## Claims, pins and capacity -/

/-- `cache_ephemeral_op_e`. -/
inductive EphemeralOp where
  | acquire
  | release
  | clear
deriving DecidableEq

/-- The results of the messages on claims and pins. -/
structure CountResult where
  result : Int
  previousCount : Nat
  newCount : Nat

/-- Set the claims of an entry, and log it. -/
def setClaims (cache : Cache) (ref : EntryRef) (claims : UInt16) : Cache :=
  { cache with
    index := setEntryMetadata world.env cache.index ref claims (cache.index.entries ref).pinCount }

/-- `CACHE_EPHEMERAL` on an entry. -/
def cacheEphemeralEntry (cache : Cache) (op : EphemeralOp) (hash : Hash)
    (ref : EntryRef) : Option (Cache × CountResult) :=
  let claims := (cache.index.entries ref).ephemeralCount
  match op with
  | .acquire =>
    if claims = 0xffff then
      some (cache, ⟨-2, claims.toNat, claims.toNat⟩)
    else
      some (setClaims world cache ref (claims + 1), ⟨0, claims.toNat, claims.toNat + 1⟩)
  | .release =>
    if 0 < claims then
      let released := setClaims world cache ref (claims - 1)
      let result : CountResult := ⟨0, claims.toNat, claims.toNat - 1⟩
      if claims = 1 then
        (blockCacheDeleteEntry world released hash ref).map fun cache => (cache, result)
      else
        some (released, result)
    else
      some (cache, ⟨0, claims.toNat, 0⟩)
  | .clear =>
    some (if 0 < claims then setClaims world cache ref 0 else cache, ⟨0, claims.toNat, 0⟩)

/-- `CACHE_EPHEMERAL`. -/
def cacheEphemeral (cache : Cache) (op : EphemeralOp) (hash : Hash) :
    Option (Cache × CountResult) :=
  match cacheFindEntry cache hash with
  | some ref => cacheEphemeralEntry world cache op hash ref
  | none => some (cache, ⟨-1, 0, 0⟩)

/-- The new number of pins: `CACHE_PIN` saturates, `CACHE_UNPIN` stops. -/
def nextPinCount (pin : Bool) (pins : UInt32) : UInt32 :=
  if pin then
    if pins = 0xffffffff then pins else pins + 1
  else
    if 0 < pins then pins - 1 else pins

/-- `CACHE_PIN` and `CACHE_UNPIN`. -/
def cachePin (cache : Cache) (pin : Bool) (hash : Hash) : Cache × CountResult :=
  match cacheFindEntry cache hash with
  | some ref =>
    let entry := cache.index.entries ref
    let pins := nextPinCount pin entry.pinCount
    ({ cache with index := setEntryMetadata world.env cache.index ref entry.ephemeralCount pins },
      ⟨0, entry.pinCount.toNat, pins.toNat⟩)
  | none => (cache, ⟨-1, 0, 0⟩)

/-- The counters as they are taken from the index. -/
def recount (cache : Cache) : Cache :=
  { cache with
    currentBytes := UInt64.ofNat (indexCount cache.index) * cache.typeBytes
    entryCount := UInt64.ofNat (indexCount cache.index) }

/-- `sections_set_max_bytes`. -/
def setMaxBytes (cache : Cache) (maxBytes : UInt64) : Cache :=
  { cache with sections := { cache.sections with maxBytes := maxBytes.toNat } }

/-- `block_cache_set_max_capacity`, which `CACHE_RESIZE` calls. -/
def cacheResize (cache : Cache) (maxCapacityBytes : UInt64) : Cache :=
  let resized := setMaxBytes { cache with maxCapacityBytes } maxCapacityBytes
  if 0 < maxCapacityBytes then recount resized else resized

/-! ## Messages -/

/-- The messages to the cache, with the time and the snapshot write where they are needed. -/
inductive CacheMessage where
  | put (payload : CachePut) (now : UInt64)
  | putGroupEnd (group : UInt32) (abort : Bool)
  | resize (maxCapacityBytes : UInt64)
  | gc (keep : Hash → Bool) (force : Bool)
  | get (payload : CacheGet) (now : UInt64)
  | remove (hash : Hash) (force : Bool)
  | readResult (sectionId sectionIndex : UInt64) (data : Option Bytes)
      (now : UInt64)
  | defragment (threshold : Nat → Nat → Bool) (write : SnapshotWrite)
  | indexSave (write : SnapshotWrite)
  | ephemeral (op : EphemeralOp) (hash : Hash)
  | pin (pin : Bool) (hash : Hash)

/-- The answers to gets and the reads that a message leads to. -/
structure Outgoing where
  replies : List CacheGetResult
  reads : List (UInt64 × UInt64)

/-- A state with nothing to send. -/
def Cache.silent (cache : Cache) : Cache × Outgoing :=
  (cache, ⟨[], []⟩)

/-- `block_cache_dispatch`. -/
def blockCacheDispatch (cache : Cache) : CacheMessage → Option (Cache × Outgoing)
  | .put payload now => (cachePut world cache payload now).map fun done => done.1.silent
  | .putGroupEnd group abort => (cachePutGroupEnd world cache group abort).map Cache.silent
  | .resize maxCapacityBytes => some (cacheResize cache maxCapacityBytes).silent
  | .gc keep force => (cacheGc world cache keep force).map fun done => done.1.silent
  | .get payload now =>
    (cacheGet world cache payload now).map fun done => (done.1, ⟨done.2.replies, done.2.reads⟩)
  | .remove hash force => (cacheRemove world cache hash force).map fun done => done.1.silent
  | .readResult sectionId sectionIndex data now =>
    (cacheReadResult world cache sectionId sectionIndex data now).map
      fun done => (done.1, ⟨done.2, []⟩)
  | .defragment threshold write => some (cacheDefragment world cache threshold write).1.silent
  | .indexSave write =>
    some { cache with index := indexDebounce world.env write cache.index }.silent
  | .ephemeral op hash => (cacheEphemeral world cache op hash).map fun done => done.1.silent
  | .pin pin hash => some (cachePin world cache pin hash).1.silent

/-- The steps of the two actors that share the section store. -/
inductive CacheStep where
  | cache (message : CacheMessage)
  | sectionsRead (sectionId : UInt64) (sectionIndex : Nat)
  | sectionWriteMeta

def cacheStep (cache : Cache) : CacheStep → Option Cache
  | .cache message => (blockCacheDispatch world cache message).map Prod.fst
  | .sectionsRead sectionId sectionIndex =>
    (sectionsRead world.io cache.sections sectionId sectionIndex
      cache.disk).map fun (sections, disk, _) => cache.withStore (sections, disk)
  | .sectionWriteMeta =>
    (sectionsDispatch world.io cache.sections cache.disk .sectionWriteMeta).map cache.withStore

/-- The effect of a run. -/
def cacheRun : Cache → List CacheStep → Option Cache
  | cache, [] => some cache
  | cache, step :: rest => (cacheStep world cache step).bind fun next => cacheRun next rest

/-! ## Creation -/

/-- The settings of a block cache. -/
structure CacheConfig where
  type : BlockSize
  hasTimer : Bool
  sectionSize : Nat
  cacheSize : Nat
  maxTupleSize : Nat
  lruSize : Nat
  indexBucketSize : UInt64
  maxSnapshots : Nat
  maxWals : Nat
  deleteBlocksOnPutFailure : Bool
  maxCapacityBytes : UInt64

/-- What a block cache finds in its directories. -/
structure CacheFiles where
  index : IndexFiles
  disk : Disk
  robin : List UInt64
  nextId : UInt64

/-- `block_cache_create`, with the outcome of the write of a snapshot. -/
def blockCacheCreate (config : CacheConfig) (files : CacheFiles)
    (write : SnapshotWrite) : Option Cache :=
  (sectionsCreate world.io ⟨config.type.bytes, config.hasTimer⟩
    config.sectionSize config.cacheSize config.maxTupleSize files.robin
    files.nextId files.disk).bind fun store =>
      (indexCreate world.env write files.index config.indexBucketSize
        config.maxSnapshots config.maxWals).map fun created =>
          let cache : Cache :=
            { type := config.type
              index := created.1
              sections := store.1
              disk := store.2
              lruSize := config.lruSize
              lru := []
              pendingGets := []
              maxCapacityBytes := config.maxCapacityBytes
              currentBytes := 0
              entryCount := 0
              deleteBlocksOnPutFailure := config.deleteBlocksOnPutFailure
              putGroups := []
              endedPutGroups := []
              endedPutGroupsNext := 0 }
          if 0 < config.maxCapacityBytes then
            setMaxBytes (recount cache) config.maxCapacityBytes
          else
            cache

end

end Liboffs.BlockCache
