import Liboffs.BlockCache.SlotOwnership

/-!
# The popularity of blocks

The hits on a block are counted, and a block whose rank rises is advertised
to the network.  `CACHE_GET` takes the flag of the last promotion in the index
for the effect of its own lookup, but its lookup counts nothing.
-/

namespace Liboffs.BlockCache

open Library.Runs

/-- The advertisement that `CACHE_GET` sends where there is a network. -/
def getAdvertisement (network : Bool) (index : Index) (hash : Hash) : Option (Hash × UInt32) :=
  match indexFind index hash with
  | some ref =>
    if index.lastIncrementPromoted && network then
      some (index.hashOf ref, (index.entries ref).counter.fib)
    else
      none
  | none => none

/-- The advertisement that the network sends on `CACHE_PUT_RESULT`. -/
def putAdvertisement (result : CachePutResult) : Option (Hash × UInt32) :=
  if result.result = .exists_ && result.promoted then
    result.hash.map fun hash => (hash, result.fib)
  else
    none

/-- The rank of a known block has risen. -/
def Rises (before after : Index) (hash : Hash) : Prop :=
  ∃ old new, before.entryOf hash = some old ∧ after.entryOf hash = some new ∧
    old.counter.fib < new.counter.fib

/-- A hit counts one, and is advertised exactly if it has raised the rank of the block. -/
def Counted (world : World) (network : Bool) (cache : Cache) : CacheStep → Prop
  | .cache (.get get now) => ∀ after outcome, cacheGet world cache get now = some (after, outcome) →
    (∀ ref, indexFind cache.index get.hash = some ref → (after.index.entries ref).counter =
      (fibonacciHitCounterIncrement (cache.index.entries ref).counter).1) ∧
    ((∃ fib, getAdvertisement network cache.index get.hash = some (get.hash, fib)) ↔
      Rises cache.index after.index get.hash)
  | .cache (.put put now) => ∀ after result, cachePut world cache put now = some (after, result) →
    ((∃ fib, putAdvertisement result = some (put.block.hash, fib)) ↔
      Rises cache.index after.index put.block.hash)
  | _ => True

/-- The step is not a get that hits. -/
def Misses (cache : Cache) : CacheStep → Prop
  | .cache (.get get _) => indexFind cache.index get.hash = none
  | _ => True

variable {world : World} {cache after : Cache} {put : CachePut} {get : CacheGet} {now : UInt64}

theorem counted_get_iff (done : cacheGet world cache get now = some (after, outcome)) :
    Counted world network cache (.cache (.get get now)) ↔
      indexFind cache.index get.hash = none := by
  constructor
  · intro counted
    by_contra hit
    obtain ⟨ref, found⟩ := Option.ne_none_iff_exists'.mp hit
    have advanced := (counted after outcome done).1 ref found
    have same : (after.index.entries ref).counter = (cache.index.entries ref).counter := by
      cases cacheGet_cases done with
      | answered | recalled | waiting | missed => rfl
      | loaded _ block store _ found hash reads remembers direct => exact remembers.counter ref
    rw [same] at advanced
    have advanced := advanced.symm
    unfold fibonacciHitCounterIncrement at advanced
    split at advanced
    · exact absurd (congrArg FibonacciHitCounter.fib advanced) (by simp)
    · exact absurd (congrArg FibonacciHitCounter.count advanced) (by simp)
  · intro missed after outcome done
    constructor
    · intro ref found
      rw [missed] at found
      cases found
    · simp [getAdvertisement, Rises, Index.entryOf, missed]

theorem counter_acquireClaim :
    ((acquireClaim world cache ref acquire).index.entries other).counter =
      (cache.index.entries other).counter := by
  unfold acquireClaim
  split
  · simp only [setEntryMetadata, indexWriteEntryMetadata]
    rw [(sameEntries_logRecord _ _ _).entries]
    apply counter_setEntry
    rfl
  · rfl

/-- A put is advertised exactly if it raises the rank of its block. -/
theorem counted_put : Counted world network cache (.cache (.put put now)) := by
  intro after result done
  cases found : indexFind cache.index put.block.hash with
  | some ref =>
    rw [cachePut, found] at done
    cases done
    have touches := (touches_raiseEntryFib cache.index ref put.incomingFib).trans
      (touches_acquireClaim world
        { cache with index := raiseEntryFib cache.index ref put.incomingFib } ref
        put.acquireEphemeral).index
    simp only [putAdvertisement, Rises, Index.entryOf, touches.indexFind, found]
    by_cases lower : (cache.index.entries ref).counter.fib < put.incomingFib
    · simp [counter_acquireClaim, raiseEntryFib, Index.setEntry, lower]
    · simp [counter_acquireClaim, raiseEntryFib, lower]
  | none =>
    have unknown : ¬ Rises cache.index after.index put.block.hash := by
      simp [Rises, Index.entryOf, found]
    refine iff_of_false ?_ unknown
    rcases cachePut_cases done with ⟨known, _⟩ | ⟨_, turned⟩ | ⟨_, _, new⟩
    · simp [found] at known
    · rcases turned with full | error
      · simp [putAdvertisement, full]
      · simp [putAdvertisement, error]
    · simp [putAdvertisement, new]

/-- Each access is counted and advertised as it should be exactly if no get hits. -/
theorem popularity_is_counted_iff (world : World) (network : Bool) (cache : Cache)
    (steps : List CacheStep) :
    EachStep (cacheStep world) (Counted world network) cache steps ↔
      EachStep (cacheStep world) Misses cache steps := by
  have exact_ (cache : Cache) (step : CacheStep) (next : Cache)
      (stepped : cacheStep world cache step = some next) :
      Counted world network cache step ↔ Misses cache step := by
    cases step with
    | cache message =>
      cases message with
      | get get now =>
        rcases Option.map_eq_some_iff.mp stepped with ⟨_, done, _⟩
        rcases Option.map_eq_some_iff.mp done with ⟨_, done, _⟩
        exact counted_get_iff done
      | put put now => exact iff_of_true counted_put trivial
      | _ => exact Iff.rfl
    | _ => exact Iff.rfl
  constructor
  · exact .mono fun cache step next counted stepped => (exact_ cache step next stepped).mp counted
  · exact .mono fun cache step next misses stepped => (exact_ cache step next stepped).mpr misses

/-- A block is put and then got without a hit being counted. -/
theorem hit_is_not_counted :
    ∃ cache, runSmall reliableIo [putNano 1] = some cache ∧ ¬ Counted (smallWorld reliableIo) true
      cache (.cache (.get ⟨(nanoBlock 1).hash, false, false, none⟩ 0)) := by
  obtain ⟨cache, ran, hit, done⟩ : ∃ cache, runSmall reliableIo [putNano 1] = some cache ∧
      indexFind cache.index (nanoBlock 1).hash ≠ none ∧ (cacheGet (smallWorld reliableIo) cache
        ⟨(nanoBlock 1).hash, false, false, none⟩ 0).isSome := by
    decide +kernel
  obtain ⟨⟨after, outcome⟩, done⟩ := Option.isSome_iff_exists.mp done
  exact ⟨cache, ran, fun counted => hit ((counted_get_iff done).mp counted)⟩

end Liboffs.BlockCache
