import Liboffs.BlockCache.LruCoherence
import Liboffs.Bloom.FalseNegatives
import Mathlib.Data.List.DropRight

/-!
# Collections with a keep list

For each URL of a list the blocks of its representation are collected, one walk after the other,
and their hashes are entered in a filter.  Then the block cache deletes every block that the
filter lacks and nothing protects.

The parser of URLs and the hashes that a walk delivers are any, and other messages of the cache
may come in between.
-/

namespace Liboffs.BlockCache

open Bloom Library Library.ByteOrder Library.Runs List Option

/-! ## Lines -/

/-- A space or a tabulator. -/
def isPadding (byte : UInt8) : Bool :=
  byte = 32 || byte = 9

/-- `block_gc_trim_line`. -/
def blockGcTrimLine (line : Bytes) : Bytes :=
  let line := if line.getLast? = some 13 then line.dropLast else line
  (line.dropWhile isPadding).rdropWhile isPadding

/-- `block_gc_count_lines` and `block_gc_fill_lines`: the lines that are not blank. -/
def blockGcLines (text : Bytes) : List Bytes :=
  ((text.splitOn 10).map blockGcTrimLine).filter fun line => !line.isEmpty

/-- What a collection uses of `off_url_t`. -/
structure OffUrl where
  streamLength : UInt64
  descriptorHash : Option Bytes

/-- `REPRESENTATION_DESCRIPTOR_PAD`. -/
def representationDescriptorPad : UInt64 := 32

/-- `representation_block_size_for_type`. -/
def representationBlockSizeForType (type : BlockSize) : UInt64 :=
  UInt64.ofNat type.bytes

/-- The blocks that a stream of some length needs. -/
def expectedBlocksOfUrl (blockSize entriesPerDescriptorBlock : UInt64)
    (streamLength : UInt64) : UInt64 :=
  let dataBlocks := (streamLength + blockSize - 1) / blockSize
  let descriptorBlocks := (dataBlocks + entriesPerDescriptorBlock - 1) / entriesPerDescriptorBlock
  dataBlocks + if descriptorBlocks = 0 then 1 else descriptorBlocks

section
variable (parse : Bytes → Option OffUrl)

def urlOfLine (line : Bytes) : Option OffUrl :=
  (parse line).filter fun url => url.descriptorHash.isSome

/-- `block_gc_expected_blocks`. -/
def blockGcExpectedBlocks (type : BlockSize) (lines : List Bytes) : UInt64 :=
  let blockSize := representationBlockSizeForType type
  if blockSize ≤ representationDescriptorPad then
    0
  else
    let entries := blockSize / representationDescriptorPad - 1
    let entries := if entries = 0 then 1 else entries
    lines.foldl (fun expected line =>
      match urlOfLine parse line with
      | some url => expected + expectedBlocksOfUrl blockSize entries url.streamLength
      | none => expected) 0

/-! ## The state of a collection -/

/-- `GC_LINE_*`. -/
inductive GcLineReason where
  | malformedUrl
  | missingDescriptor
  | malformedDescriptor
  | cycle
deriving DecidableEq

/-- A row of the failed lines; lines are counted from one. -/
structure GcFailure where
  line : Nat
  reason : GcLineReason
  text : Bytes

/-- `BLOCK_GC_PHASE_*`. -/
inductive GcPhase where
  | collect
  | sweep
  | defrag
deriving DecidableEq

/-- What `CACHE_DEFRAGMENT_RESULT` reports. -/
structure GcDefragment where
  result : Int
  sections : Nat
  blocksRelocated : Nat

/-- What a collection keeps of `CACHE_GC_RESULT`. -/
structure GcCounts where
  blocksDeleted : Nat
  blocksKept : Nat
  skippedPinned : Nat
  skippedEphemeralClaimed : Nat

/-- `block_gc_result_t`. -/
structure BlockGcResult where
  status : Nat
  urlsRequest : Nat
  urlsCollected : Nat
  swept : GcCounts
  failed : List GcFailure
  defragApplied : Bool
  defragmented : GcDefragment

/-- `block_gc_t`, without the actors it refers to. -/
structure BlockGc (Single : Type) where
  lines : List Bytes
  nextLine : Nat
  force : Bool
  defrag : Bool
  defragThreshold : Single
  phase : GcPhase
  collecting : Bool
  currentLine : Nat
  keep : Option (ElasticBloomFilter Single)
  failed : List GcFailure
  urlsCollected : Nat
  status : Nat
  swept : GcCounts
  defragApplied : Bool
  defragmented : GcDefragment
  hasReceiver : Bool
  reported : Bool

/-- `representation_collect_result_payload_t`; a hash may be missing. -/
structure CollectResult where
  result : Int
  hashes : List (Option Bytes)

/-- The messages that a collection handles. -/
inductive GcMessage where
  | start
  | collectResult (payload : Option CollectResult)
  | cacheGcResult (payload : Option CacheGcResult)
  | cacheDefragmentResult (payload : Option GcDefragment)

/-- What a collection asks of others. -/
inductive GcEffect (Single : Type) where
  | walk (descriptorHash : Bytes)
  | sweep (keep : ElasticBloomFilter Single) (force : Bool)
  | defragment (threshold : Single)
  | report (result : BlockGcResult)

variable {Single : Type} (float : SinglePrecision Single) (xxh3 : Bytes → UInt64 → UInt64)

/-- `BLOCK_GC_EXPECTED_PER_URL`. -/
def blockGcExpectedPerUrl : UInt64 := 16

/-- `BLOCK_GC_EBF_HASH_COUNT`. -/
def blockGcEbfHashCount : UInt32 := 4

/-- The number of buckets of the keep filter. -/
def keepFilterSize (type : BlockSize) (lines : List Bytes) : UInt64 :=
  let expected := blockGcExpectedBlocks parse type lines
  let expected :=
    if expected = 0 then
      UInt64.ofNat lines.length * blockGcExpectedPerUrl
    else
      expected
  let ebfSize := expected * 16
  if ebfSize < 1024 then 1024 else ebfSize

/-- `block_gc_create`. -/
def blockGcCreate (type : BlockSize) (text : Bytes) (force defrag : Bool)
    (defragThreshold : Single) (hasReceiver : Bool) : BlockGc Single where
  lines := blockGcLines text
  nextLine := 0
  force := force
  defrag := defrag
  defragThreshold := defragThreshold
  phase := .collect
  collecting := false
  currentLine := 0
  keep :=
    if blockGcLines text = [] then
      none
    else
      some (elasticBloomFilterCreate float (keepFilterSize parse type (blockGcLines text)).toNat
        blockGcEbfHashCount (float.ofNat 1) ebfDefaultFpBits)
  failed := []
  urlsCollected := 0
  status := 0
  swept := ⟨0, 0, 0, 0⟩
  defragApplied := false
  defragmented := ⟨0, 0, 0⟩
  hasReceiver := hasReceiver
  reported := false

/-! ## The handlers -/

/-- `block_gc_push_failure`. -/
def blockGcPushFailure (gc : BlockGc Single) (lineIndex : Nat)
    (reason : GcLineReason) : BlockGc Single :=
  { gc with failed := gc.failed ++ [⟨lineIndex + 1, reason, gc.lines.getD lineIndex []⟩] }

/-- `block_gc_report`; the failed lines go with the result. -/
def blockGcReport (gc : BlockGc Single) : BlockGc Single × List (GcEffect Single) :=
  if gc.reported then
    (gc, [])
  else if gc.hasReceiver then
    ({ gc with reported := true, failed := [] },
      [.report
        { status := gc.status
          urlsRequest := gc.lines.length
          urlsCollected := gc.urlsCollected
          swept := gc.swept
          failed := gc.failed
          defragApplied := gc.defragApplied
          defragmented := gc.defragmented }])
  else
    ({ gc with reported := true }, [])

/-- Enter one hash in the keep filter, unless the filter has it. -/
def keepHash (filter : ElasticBloomFilter Single) : Option Bytes → ElasticBloomFilter Single
  | none => filter
  | some hash =>
    if elasticBloomFilterContains xxh3 filter hash then
      filter
    else
      (elasticBloomFilterAdd float xxh3 filter hash).1

/-- `block_gc_merge_collect_result`. -/
def blockGcMergeCollectResult (gc : BlockGc Single) (result : CollectResult) : BlockGc Single :=
  { gc with
    keep := gc.keep.map fun filter => result.hashes.foldl (keepHash float xxh3) filter }

/--
The loop of `block_gc_collect_step`: lines without a URL fail, and the first with one is walked.
-/
def blockGcNextWalk : List Bytes → BlockGc Single → BlockGc Single × Option Bytes
  | [], gc => (gc, none)
  | line :: rest, gc =>
    let lineIndex := gc.nextLine
    let gc := { gc with nextLine := gc.nextLine + 1 }
    match (urlOfLine parse line).bind OffUrl.descriptorHash with
    | none => blockGcNextWalk rest (blockGcPushFailure gc lineIndex .malformedUrl)
    | some hash =>
      ({ gc with collecting := true, currentLine := lineIndex }, some hash)

/-- The end of `block_gc_collect_step`, with the guards before the sweep. -/
def blockGcFinishCollect (gc : BlockGc Single) : BlockGc Single × List (GcEffect Single) :=
  match gc.keep with
  | none => blockGcReport { gc with status := 1 }
  | some keep =>
    if gc.urlsCollected = 0 ∧ gc.failed.length = gc.lines.length then
      blockGcReport { gc with status := 1 }
    else
      ({ gc with phase := .sweep, keep := none }, [.sweep keep gc.force])

/-- The lines that are left to walk, unless a walk is outstanding. -/
def linesLeft (gc : BlockGc Single) : List Bytes :=
  if gc.collecting then [] else gc.lines.drop gc.nextLine

/-- `block_gc_collect_step`. -/
def blockGcCollectStep (gc : BlockGc Single) : BlockGc Single × List (GcEffect Single) :=
  if gc.phase ≠ .collect then
    (gc, [])
  else
    match blockGcNextWalk parse (linesLeft gc) gc with
    | (gc, some hash) => (gc, [.walk hash])
    | (gc, none) =>
      if gc.lines.length ≤ gc.nextLine then
        blockGcFinishCollect gc
      else
        (gc, [])

/-- What the outcome of a walk does to its line. -/
def blockGcRecordWalk (gc : BlockGc Single) (walkResult : Int) : BlockGc Single :=
  if walkResult = 0 then
    { gc with urlsCollected := gc.urlsCollected + 1 }
  else if walkResult = -3 then
    blockGcPushFailure { gc with urlsCollected := gc.urlsCollected + 1 } gc.currentLine .cycle
  else if walkResult = -1 then
    blockGcPushFailure gc gc.currentLine .missingDescriptor
  else
    blockGcPushFailure gc gc.currentLine .malformedDescriptor

/-- `block_gc_dispatch`. -/
def blockGcDispatch (gc : BlockGc Single) : GcMessage → BlockGc Single × List (GcEffect Single)
  | .start => blockGcCollectStep parse gc
  | .collectResult payload =>
    let gc := { gc with collecting := false }
    match payload with
    | some result =>
      blockGcCollectStep parse (blockGcRecordWalk (blockGcMergeCollectResult float xxh3 gc result)
          result.result)
    | none => blockGcCollectStep parse gc
  | .cacheGcResult none => blockGcReport { gc with status := 1 }
  | .cacheGcResult (some result) =>
    let gc :=
      { gc with
        swept :=
          { blocksDeleted := result.blocksDeleted
            blocksKept := result.blocksKept
            skippedPinned := result.skippedPinned
            skippedEphemeralClaimed := result.skippedEphemeralClaimed } }
    if gc.defrag then
      ({ gc with defragApplied := true, phase := .defrag }, [.defragment gc.defragThreshold])
    else
      blockGcReport gc
  | .cacheDefragmentResult payload =>
    blockGcReport { gc with defragmented := payload.getD ⟨-1, 0, 0⟩ }

end

/-! ## The collection and the cache -/

/--
A collection with its cache, the `CACHE_GC` messages in the mailbox of the cache, and the
delivered hashes.
-/
structure GcSystem (Single : Type) where
  gc : BlockGc Single
  starting : Bool
  cache : Cache
  sweeps : List (ElasticBloomFilter Single × Bool)
  delivered : List Bytes

/-- The steps of the collection and of the cache. -/
inductive GcStep where
  | gc (message : GcMessage)
  | cache (step : CacheStep)
  | sweep

def GcMessage.delivers : GcMessage → List Bytes
  | .collectResult (some result) => result.hashes.filterMap id
  | _ => []

/-- The sweeps among the effects of a message. -/
def GcEffect.sweeps {Single : Type} : GcEffect Single → Option (ElasticBloomFilter Single × Bool)
  | .sweep keep force => some (keep, force)
  | _ => none

/-- The start comes once, and the result of a walk only while one is outstanding. -/
def GcMessage.expected {Single : Type} (system : GcSystem Single) : GcMessage → Bool
  | .start => system.starting
  | .collectResult _ => system.gc.collecting
  | _ => !system.starting

section
variable {Single : Type} (parse : Bytes → Option OffUrl) (float : SinglePrecision Single)
  (xxh3 : Bytes → UInt64 → UInt64) (world : World)

/-- The keep filter as the cache asks it. -/
def keeps (filter : ElasticBloomFilter Single) (hash : Hash) : Bool :=
  elasticBloomFilterContains xxh3 filter hash.bytes

/-- A step of a collection with its cache. -/
def gcSystemStep (system : GcSystem Single) : GcStep → Option (GcSystem Single)
  | .gc message =>
    if message.expected system then
      let handled := blockGcDispatch parse float xxh3 system.gc message
      some
        { system with
          gc := handled.1
          starting := false
          sweeps := system.sweeps ++ handled.2.filterMap GcEffect.sweeps
          delivered := message.delivers ++ system.delivered }
    else
      none
  | .cache step => (cacheStep world system.cache step).map fun cache => { system with cache }
  | .sweep =>
    match system.sweeps with
    | [] => none
    | (keep, force) :: rest =>
      (cacheGc world system.cache (keeps xxh3 keep) force).map
        fun done => { system with cache := done.1, sweeps := rest }

/-- `block_gc_create` on a cache. -/
def gcSystemCreate (cache : Cache) (text : Bytes) (force defrag : Bool)
    (defragThreshold : Single) (hasReceiver : Bool) : GcSystem Single where
  gc := blockGcCreate parse float cache.type text force defrag defragThreshold hasReceiver
  starting := true
  cache := cache
  sweeps := []
  delivered := []

/-- An entry holds a pin or an ephemeral claim. -/
def Protected (entry : IndexEntry) : Prop :=
  0 < entry.pinCount ∨ 0 < entry.ephemeralCount

/--
Delivered and, without force, protected entries are kept, and all else that the filter lacks is
gone.
-/
structure SweptRightly (before after : Cache) (keep : ElasticBloomFilter Single)
    (force : Bool) (delivered : List Bytes) : Prop where
  kept : ∀ hash ref, indexFind before.index hash = some ref →
    hash.bytes ∈ delivered → indexFind after.index hash = some ref
  protected_ : ∀ hash ref, indexFind before.index hash = some ref →
    force = false → Protected (before.index.entries ref) → indexFind after.index hash = some ref
  removed : ∀ hash ref, indexFind before.index hash = some ref →
    keeps xxh3 keep hash = false →
      (force = true ∨ ¬ Protected (before.index.entries ref)) → indexFind after.index hash = none

/-- A sweep in the mailbox ends and deletes the right entries. -/
def SweepsRightly (system : GcSystem Single) : Prop :=
  ∀ keep force rest, system.sweeps = (keep, force) :: rest → ∃ after result,
      cacheGc world system.cache (keeps xxh3 keep) force = some (after, result) ∧
        SweptRightly xxh3 system.cache after keep force system.delivered

end

/-! ## The sweep -/

section
variable {world : World} {cache : Cache}

theorem cacheGcLoop_eq (world : World) (keep : Hash → Bool) (force : Bool)
    (refs : List EntryRef) (cache : Cache) (result : CacheGcResult) :
    ∃ counted, cacheGcLoop world keep force refs cache result = some (cache.withoutAll world
        (doomedHashes keep force cache.index refs), counted) := by
  have total : (cacheGcLoop world keep force refs cache result).isSome := by
    induction refs generalizing cache result with
    | nil => rfl
    | cons ref rest ih =>
      simp only [cacheGcLoop]
      split
      · exact ih _ _
      · exact ih _ _
  rcases isSome_iff_exists.mp total with ⟨⟨after, counted⟩, ran⟩
  exact ⟨counted, by rw [ran, cacheGcLoop_cases ran]⟩

variable {force : Bool} {keep : Hash → Bool}

theorem gcVerdict_eq_deleted_iff :
    gcVerdict keep force entry = .deleted ↔
      keep entry.hash = false ∧ (force = true ∨ ¬ Protected entry) := by
  rw [gcVerdict, Protected]
  by_cases claimed : 0 < entry.ephemeralCount
  · cases keep entry.hash <;> cases force <;> simp [claimed]
  · cases keep entry.hash <;> cases force <;> simp [claimed]

variable (wellFormed : cache.index.WellFormed)
include wellFormed

theorem indexFind_withoutAll (hashes : List Hash) (hash : Hash) :
    indexFind (cache.withoutAll world hashes).index hash =
      if hash ∈ hashes then none else indexFind cache.index hash := by
  induction hashes generalizing cache with
  | nil => rfl
  | cons first rest ih =>
    rw [Cache.withoutAll, ih (wellFormed_without wellFormed first), indexFind_without wellFormed]
    by_cases later : hash ∈ rest
    · rw [if_pos later, if_pos (mem_cons_of_mem first later)]
    · by_cases same : hash = first
      · rw [if_neg later, if_pos same, if_pos (same ▸ mem_cons_self)]
      · rw [if_neg later, if_neg same, if_neg]
        rintro (_ | ⟨_, member⟩)
        · exact same rfl
        · exact later member

theorem mem_doomedHashes_iff {hash : Hash} {ref : EntryRef}
    (found : indexFind cache.index hash = some ref) :
    hash ∈ doomedHashes keep force cache.index (indexToArray cache.index) ↔ keep hash = false ∧
        (force = true ∨ ¬ Protected (cache.index.entries ref)) := by
  rcases (indexFind_eq_some_iff wellFormed).mp found with ⟨member, named⟩
  constructor
  · intro doomed
    rcases mem_map.mp doomed with ⟨other, chosen, same⟩
    rcases mem_filter.mp chosen with ⟨listed, verdict⟩
    have also := (indexFind_eq_some_iff wellFormed).mpr ⟨listed, same⟩
    cases Option.some.inj (found.symm.trans also)
    rw [← named]
    exact gcVerdict_eq_deleted_iff.mp (of_decide_eq_true verdict)
  · intro doomed
    rw [← named] at doomed
    apply List.mem_map.mpr
    exact ⟨ref, mem_filter.mpr ⟨member,
      decide_eq_true (gcVerdict_eq_deleted_iff.mpr doomed)⟩, named⟩

/-- A sweep whose filter has all delivered hashes is right. -/
theorem sweptRightly_cacheGc {keep : ElasticBloomFilter Single} {delivered : List Bytes}
    (holds : ∀ hash ∈ delivered, elasticBloomFilterContains xxh3 keep hash = true) :
    ∃ after result, cacheGc world cache (keeps xxh3 keep) force = some (after, result) ∧
        SweptRightly xxh3 cache after keep force delivered := by
  rcases cacheGcLoop_eq world (keeps xxh3 keep) force
    (indexToArray cache.index) cache ⟨0, 0, 0, 0, 0⟩ with ⟨counted, ran⟩
  refine ⟨_, counted, ran, ?_, ?_, ?_⟩
  · intro hash ref found member
    rw [indexFind_withoutAll wellFormed, if_neg, found]
    rw [mem_doomedHashes_iff wellFormed found]
    rintro ⟨missing, _⟩
    rw [keeps, holds hash.bytes member] at missing
    cases missing
  · intro hash ref found unforced safe
    rw [indexFind_withoutAll wellFormed, if_neg, found]
    rw [mem_doomedHashes_iff wellFormed found]
    rintro ⟨_, forced | unsafe_⟩
    · rw [unforced] at forced
      cases forced
    · exact unsafe_ safe
  · intro hash ref found missing doomed
    rw [indexFind_withoutAll wellFormed, if_pos]
    exact (mem_doomedHashes_iff wellFormed found).mpr ⟨missing, doomed⟩

end

/-! ## Runs -/

section
variable {Single : Type} {parse : Bytes → Option OffUrl} {float : SinglePrecision Single}
  {xxh3 : Bytes → UInt64 → UInt64} {world : World}

/-- A filter that never grows and finds some hashes. -/
structure KeepsAll (float : SinglePrecision Single) (xxh3 : Bytes → UInt64 → UInt64)
    (filter : ElasticBloomFilter Single) (hashes : List Bytes) : Prop where
  omega : filter.omega = float.ofNat 1
  found : ∀ hash ∈ hashes, elasticBloomFilterContains xxh3 filter hash = true

variable {filter : ElasticBloomFilter Single}

section
variable (all : KeepsAll float xxh3 filter hashes)
include all

/-- One more hash is kept, whether the filter seemed to have it or not. -/
theorem KeepsAll.keepHash (hash : Option Bytes) :
    KeepsAll float xxh3 (keepHash float xxh3 filter hash) (hash.toList ++ hashes) := by
  cases hash with
  | none => exact all
  | some hash =>
    rw [BlockCache.keepHash]
    split
    · rename_i known
      constructor
      · exact all.omega
      · intro other member
        rcases mem_cons.mp member with rfl | old
        · exact known
        · exact all.found other old
    · have stays : filter.expandsOn float xxh3 hash = false :=
        not_expandsOn_of_omega_one all.omega
      constructor
      · rcases buckets_elasticBloomFilterAdd stays with ⟨count, added⟩
        rw [added]
        exact all.omega
      · intro other member
        rcases mem_cons.mp member with rfl | old
        · exact contains_add_self stays
        · exact contains_add_of_contains stays (all.found other old)

theorem KeepsAll.mono (within : ∀ hash ∈ fewer, hash ∈ hashes) : KeepsAll float xxh3 filter fewer :=
  ⟨all.omega, fun hash member => all.found hash (within hash member)⟩

theorem KeepsAll.foldl (delivered : List (Option Bytes)) :
    KeepsAll float xxh3 (delivered.foldl (BlockCache.keepHash float xxh3) filter)
      (delivered.filterMap id ++ hashes) := by
  induction delivered generalizing filter hashes with
  | nil => exact all
  | cons first rest ih =>
    apply (ih (all.keepHash first)).mono
    intro hash member
    cases first with
    | none => exact member
    | some first =>
      simp only [filterMap_cons, id_eq, cons_append,
        mem_cons, mem_append, toList_some, not_mem_nil] at member ⊢
      tauto

end

/-- A message leaves the filter where it is and starts no sweep. -/
structure Goes (before after : BlockGc Single) (effects : List (GcEffect Single)) : Prop where
  keep : after.keep = before.keep
  lines : after.lines = before.lines
  sweeps : effects.filterMap GcEffect.sweeps = []
  walks : after.collecting = true →
    before.collecting = true ∨ before.phase = .collect ∧ before.lines ≠ []
  phase : before.phase ≠ .collect → after.phase ≠ .collect

/-- A message hands the filter to the cache. -/
structure Hands (before after : BlockGc Single) (effects : List (GcEffect Single))
    (filter : ElasticBloomFilter Single) : Prop where
  had : before.keep = some filter
  keep : after.keep = none
  phase : after.phase ≠ .collect
  collecting : after.collecting = before.collecting
  sweeps : ∃ force, effects.filterMap GcEffect.sweeps = [(filter, force)]

variable {gc : BlockGc Single} {before : BlockGc Single}

theorem goes_blockGcReport (keep : gc.keep = before.keep) (lines : gc.lines = before.lines)
    (walks : gc.collecting = true → before.collecting = true ∨
      before.phase = .collect ∧ before.lines ≠ [])
    (phase : before.phase ≠ .collect → gc.phase ≠ .collect) :
    Goes before (blockGcReport gc).1 (blockGcReport gc).2 := by
  unfold blockGcReport
  split
  · exact ⟨keep, lines, rfl, walks, phase⟩
  · split
    · exact ⟨keep, lines, rfl, walks, phase⟩
    · exact ⟨keep, lines, rfl, walks, phase⟩

/-- What the search for the next line to walk leaves. -/
structure Sought (before after : BlockGc Single) (left : List Bytes)
    (walk : Option Bytes) : Prop where
  keep : after.keep = before.keep
  lines : after.lines = before.lines
  phase : after.phase = before.phase
  collecting : walk = none → after.collecting = before.collecting
  found : walk ≠ none → left ≠ []

theorem sought_blockGcNextWalk (parse : Bytes → Option OffUrl) (left : List Bytes)
    (gc : BlockGc Single) :
    Sought gc (blockGcNextWalk parse left gc).1 left (blockGcNextWalk parse left gc).2 := by
  induction left generalizing gc with
  | nil => exact ⟨rfl, rfl, rfl, fun _ => rfl, fun found => absurd rfl found⟩
  | cons line rest ih =>
    rw [blockGcNextWalk]
    cases (urlOfLine parse line).bind OffUrl.descriptorHash with
    | none =>
      have sought := ih (blockGcPushFailure
        { gc with nextLine := gc.nextLine + 1 } gc.nextLine .malformedUrl)
      exact { sought with found := fun _ => cons_ne_nil line rest }
    | some hash =>
      constructor
      · rfl
      · rfl
      · rfl
      · intro absent
        cases absent
      · intro _
        exact cons_ne_nil line rest

theorem blockGcFinishCollect_cases (keep : gc.keep = before.keep) (lines : gc.lines = before.lines)
    (collecting : gc.collecting = before.collecting)
    (phase : before.phase ≠ .collect → gc.phase ≠ .collect) :
    Goes before (blockGcFinishCollect gc).1 (blockGcFinishCollect gc).2 ∨
      ∃ filter, Hands before (blockGcFinishCollect gc).1 (blockGcFinishCollect gc).2 filter := by
  have walks : gc.collecting = true → before.collecting = true ∨
      before.phase = .collect ∧ before.lines ≠ [] :=
    fun walking => .inl (collecting.symm.trans walking)
  rw [blockGcFinishCollect]
  split
  · left
    exact goes_blockGcReport keep lines walks phase
  · rename_i filter had
    split
    · left
      exact goes_blockGcReport keep lines walks phase
    · right
      exact ⟨filter, keep.symm.trans had, rfl, GcPhase.noConfusion, collecting, gc.force, rfl⟩

theorem blockGcCollectStep_cases (parse : Bytes → Option OffUrl) (gc : BlockGc Single) :
    Goes gc (blockGcCollectStep parse gc).1 (blockGcCollectStep parse gc).2 ∨
      ∃ filter, Hands gc (blockGcCollectStep parse gc).1
        (blockGcCollectStep parse gc).2 filter := by
  rw [blockGcCollectStep]
  split
  · rename_i later
    left
    exact ⟨rfl, rfl, rfl, .inl, fun _ => later⟩
  · rename_i collect
    have collect : gc.phase = .collect := Decidable.not_not.mp collect
    have sought := sought_blockGcNextWalk parse (linesLeft gc) gc
    split
    · rename_i after hash walked
      rw [walked] at sought
      left
      refine ⟨sought.keep, sought.lines, rfl, fun _ => .inr ⟨collect, ?_⟩,
        fun later => absurd collect later⟩
      intro none
      apply sought.found (some_ne_none hash)
      rw [linesLeft, none]
      split <;> simp
    · rename_i after walked
      rw [walked] at sought
      have stays := sought.collecting rfl
      split
      · apply blockGcFinishCollect_cases sought.keep sought.lines stays
        exact fun later => absurd collect later
      · left
        exact ⟨sought.keep, sought.lines, rfl, fun walking => .inl (stays.symm.trans walking),
          fun later => absurd collect later⟩

/-- The filter has every delivered hash, and without a filter nothing more is collected. -/
structure Collects (float : SinglePrecision Single) (xxh3 : Bytes → UInt64 → UInt64)
    (gc : BlockGc Single) (sweeps : List (ElasticBloomFilter Single × Bool))
    (delivered : List Bytes) : Prop where
  kept : ∀ filter, gc.keep = some filter → KeepsAll float xxh3 filter delivered
  swept : ∀ sweep ∈ sweeps, KeepsAll float xxh3 sweep.1 delivered
  handed : gc.keep ≠ none → sweeps = []
  idle : gc.keep = none → gc.collecting = false
  spent : gc.keep = none → gc.phase ≠ .collect ∨ gc.lines = []

namespace Collects

variable {after : BlockGc Single} {effects : List (GcEffect Single)}
  {sweeps : List (ElasticBloomFilter Single × Bool)} {delivered : List Bytes}

section
variable (collects : Collects float xxh3 gc sweeps delivered)
include collects

theorem goes (goes : Goes gc after effects) :
    Collects float xxh3 after (sweeps ++ effects.filterMap GcEffect.sweeps) delivered := by
  rw [goes.sweeps, append_nil]
  constructor
  · rw [goes.keep]
    exact collects.kept
  · exact collects.swept
  · rw [goes.keep]
    exact collects.handed
  · intro none
    rw [goes.keep] at none
    apply Bool.eq_false_iff.mpr
    intro walking
    rcases goes.walks walking with before | ⟨collect, lines⟩
    · rw [collects.idle none] at before
      cases before
    · rcases collects.spent none with later | empty
      · exact later collect
      · exact lines empty
  · intro none
    rw [goes.keep] at none
    rcases collects.spent none with later | empty
    · exact .inl (goes.phase later)
    · exact .inr (goes.lines.trans empty)

theorem hands (idle : gc.collecting = false) (hands : Hands gc after effects filter) :
    Collects float xxh3 after (sweeps ++ effects.filterMap GcEffect.sweeps) delivered := by
  rcases hands.sweeps with ⟨force, sweep⟩
  have none : sweeps = [] := by
    apply collects.handed
    rw [hands.had]
    exact some_ne_none filter
  rw [sweep, none, nil_append]
  constructor
  · rw [hands.keep]
    exact fun _ impossible => nomatch impossible
  · intro sweep member
    cases mem_singleton.mp member
    exact collects.kept filter hands.had
  · intro some
    exact absurd hands.keep some
  · intro _
    exact hands.collecting.trans idle
  · intro _
    exact .inl hands.phase

theorem collectStep (idle : gc.collecting = false) :
    Collects float xxh3 (blockGcCollectStep parse gc).1
      (sweeps ++ (blockGcCollectStep parse gc).2.filterMap GcEffect.sweeps)
      delivered := by
  rcases blockGcCollectStep_cases parse gc with goes | ⟨filter, hands⟩
  · exact collects.goes goes
  · exact collects.hands idle hands

/-- The hashes of a walk are merged. -/
theorem merge (walking : gc.collecting = true) (result : CollectResult) :
    Collects float xxh3 (blockGcMergeCollectResult float xxh3
        { gc with collecting := false } result)
      sweeps (result.hashes.filterMap id ++ delivered) := by
  have had : gc.keep ≠ none := by
    intro none
    rw [collects.idle none] at walking
    cases walking
  rcases ne_none_iff_exists'.mp had with ⟨filter, keep⟩
  have merged : (blockGcMergeCollectResult float xxh3 { gc with collecting := false } result).keep =
        some (result.hashes.foldl (keepHash float xxh3) filter) := by
    rw [blockGcMergeCollectResult, keep]
    rfl
  constructor
  · rw [merged]
    rintro _ ⟨⟩
    exact (collects.kept filter keep).foldl result.hashes
  · rw [collects.handed had]
    exact forall_mem_nil _
  · intro _
    exact collects.handed had
  · rw [merged]
    exact fun impossible => nomatch impossible
  · rw [merged]
    exact fun impossible => nomatch impossible

theorem idle_none : Collects float xxh3 { gc with collecting := false } sweeps delivered :=
  { collects with idle := fun _ => rfl }

end

end Collects

theorem recordWalk_eq (gc : BlockGc Single) (walkResult : Int) :
    ∃ failed urlsCollected, blockGcRecordWalk gc walkResult =
      { gc with failed := failed, urlsCollected := urlsCollected } := by
  unfold blockGcRecordWalk blockGcPushFailure
  split
  · exact ⟨_, _, rfl⟩
  · split
    · exact ⟨_, _, rfl⟩
    · split
      · exact ⟨_, _, rfl⟩
      · exact ⟨_, _, rfl⟩

/-- One message keeps the invariant of a collection. -/
theorem Collects.dispatch (collects : Collects float xxh3 system.gc system.sweeps system.delivered)
    (started : system.starting = true → system.gc.collecting = false)
    (expected : message.expected system = true) :
    Collects float xxh3 (blockGcDispatch parse float xxh3 system.gc message).1
      (system.sweeps ++ (blockGcDispatch parse float xxh3 system.gc
        message).2.filterMap GcEffect.sweeps) (message.delivers ++ system.delivered) := by
  cases message with
  | start => exact collects.collectStep (started expected)
  | collectResult payload =>
    cases payload with
    | none => exact collects.idle_none.collectStep rfl
    | some result =>
      have merged := collects.merge expected result
      rcases recordWalk_eq (blockGcMergeCollectResult float xxh3
        { system.gc with collecting := false } result) result.result
          with ⟨failed, urlsCollected, recorded⟩
      rw [blockGcDispatch]
      simp only [recorded]
      apply collectStep _ rfl
      exact { merged with }
  | cacheGcResult payload =>
    cases payload with
    | none =>
      apply collects.goes
      exact goes_blockGcReport rfl rfl .inl id
    | some result =>
      apply collects.goes
      rw [blockGcDispatch]
      split
      · exact ⟨rfl, rfl, rfl, .inl, fun _ => GcPhase.noConfusion⟩
      · exact goes_blockGcReport rfl rfl .inl id
  | cacheDefragmentResult payload =>
    apply collects.goes
    exact goes_blockGcReport rfl rfl .inl id

/-- The invariant of a collection with its cache. -/
structure GcSound (float : SinglePrecision Single) (xxh3 : Bytes → UInt64 → UInt64)
    (system : GcSystem Single) : Prop where
  wellFormed : system.cache.index.WellFormed
  collects : Collects float xxh3 system.gc system.sweeps system.delivered
  started : system.starting = true → system.gc.collecting = false

/-- Every step of the two keeps the invariant. -/
theorem GcSound.step {step : GcStep} (sound : GcSound float xxh3 system)
    (stepped : gcSystemStep parse float xxh3 world system step = some new) :
    GcSound float xxh3 new := by
  cases step with
  | gc message =>
    rw [gcSystemStep] at stepped
    split at stepped
    · rename_i expected
      cases stepped
      constructor
      · exact sound.wellFormed
      · exact sound.collects.dispatch sound.started expected
      · exact fun impossible => nomatch impossible
    · cases stepped
  | cache step =>
    rcases map_eq_some_iff.mp stepped with ⟨cache, ran, rfl⟩
    exact { sound with wellFormed := (cacheStep_cases ran).wellFormed sound.wellFormed }
  | sweep =>
    rw [gcSystemStep] at stepped
    split at stepped
    · cases stepped
    · rename_i keep force rest sweeps
      rcases map_eq_some_iff.mp stepped with ⟨done, ran, rfl⟩
      have collects := sound.collects
      rw [sweeps] at collects
      constructor
      · exact cacheGc_rule (fun _ sound => sound)
          (fun _ hash _ sound _ => wellFormed_without sound hash) sound.wellFormed ran
      · constructor
        · exact collects.kept
        · exact (forall_mem_cons.mp collects.swept).2
        · intro had
          cases collects.handed had
        · exact collects.idle
        · exact collects.spent
      · exact sound.started

/--
In every run of a collection, every sweep ends and deletes no block whose hash was delivered,
without force none that is pinned or claimed, and all others that the filter lacks.
-/
theorem collections_spare_kept_blocks (parse : Bytes → Option OffUrl)
    (float : SinglePrecision Single) (xxh3 : Bytes → UInt64 → UInt64) (world : World)
    {cache : Cache} (wellFormed : cache.index.WellFormed) (text : Bytes) (force defrag : Bool)
    (threshold : Single) (hasReceiver : Bool) (steps : List GcStep) :
    Throughout (gcSystemStep parse float xxh3 world) (SweepsRightly xxh3 world)
      (gcSystemCreate parse float cache text force defrag threshold hasReceiver) steps := by
  apply throughout_of_keeps (fun _ _ _ (sound : GcSound float xxh3 _) => sound.step)
  · intro system sound keep force rest sweeps
    apply sweptRightly_cacheGc sound.wellFormed
    have kept := sound.collects.swept (keep, force)
    rw [sweeps] at kept
    exact (kept mem_cons_self).found
  · constructor
    · exact wellFormed
    · constructor
      · intro filter created
        change (if blockGcLines text = [] then none else some _) = _ at created
        split at created
        · cases created
        · cases created
          constructor
          · exact if_neg (Bool.eq_false_iff.mp float.one_pos)
          · exact forall_mem_nil _
      · exact forall_mem_nil _
      · exact fun _ => rfl
      · exact fun _ => rfl
      · intro none
        right
        change (if blockGcLines text = [] then Option.none else some _) = _ at none
        split at none
        · assumption
        · cases none
    · exact fun _ => rfl

end

/-- Two blocks are stored, and the walk of the only line delivers one. -/
def collectOne : List GcStep :=
  [.cache (putNano 1), .cache (putNano 2), .gc .start,
    .gc (.collectResult (some ⟨0, [some (nanoBlock 1).hash.bytes]⟩)), .sweep]

/-- A collection on the tiny cache, with a line that any parser accepts. -/
def collectTiny (cache : Cache) : GcSystem ℚ :=
  gcSystemCreate (fun line => some ⟨0, some line⟩) exactArithmetic cache [65] false false 0 false

/-- The block that is delivered stays, and the other one is deleted. -/
theorem collection_spares_one_block :
    ∃ start, createTiny = some start ∧
      (collectOne.foldlM (gcSystemStep (fun line => some ⟨0, some line⟩)
          exactArithmetic firstByte (smallWorld reliableIo))
        (collectTiny start)).map (fun final =>
          ((indexFind final.cache.index (nanoBlock 1).hash).isSome,
            (indexFind final.cache.index (nanoBlock 2).hash).isSome)) =
        some (true, false) ∧
      Throughout (gcSystemStep (fun line => some ⟨0, some line⟩)
          exactArithmetic firstByte (smallWorld reliableIo))
        (SweepsRightly firstByte (smallWorld reliableIo))
        (collectTiny start) collectOne := by
  have swept : createTiny.map (fun start =>
      (collectOne.foldlM (gcSystemStep (fun line => some ⟨0, some line⟩)
          exactArithmetic firstByte (smallWorld reliableIo))
        (collectTiny start)).map (fun final =>
          ((indexFind final.cache.index (nanoBlock 1).hash).isSome,
            (indexFind final.cache.index (nanoBlock 2).hash).isSome))) =
        some (some (true, false)) := by
    decide +kernel
  rcases map_eq_some_iff.mp swept with ⟨start, created, ran⟩
  refine ⟨start, created, ran, ?_⟩
  exact collections_spare_kept_blocks _ exactArithmetic firstByte
    (smallWorld reliableIo) (wellFormed_createTiny created) [65] false false 0 false collectOne

end Liboffs.BlockCache
