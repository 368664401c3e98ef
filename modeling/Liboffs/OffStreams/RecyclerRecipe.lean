import Liboffs.OffStreams.DescriptorSlices

/-!
# The recycler

The recycler delivers the blocks of representations that have been stored
before.  It loads the descriptor of one representation after the other: the
hashes of the blocks that were made at random come first, then those of the
sums, of which the last is kept apart.  For each hash it asks the cache about
the state of the block before it fetches the block itself.

The cache is always there; what the recycler sends is kept in order in its
state.
-/

namespace Liboffs.OffStreams

open BlockCache Library Library.ByteOrder List

/-- `recycle_ephemeral_e`. -/
inductive RecycleEphemeral where
  | none
  | commit
  | propagate
deriving DecidableEq

/-- `recipe_state_e`. -/
inductive RecipeState where
  | fetchingBlock
  | awaitingNetwork
deriving DecidableEq

/-- What is done with a block when it is delivered. -/
inductive EnforceDecision where
  | deliver
  | propagate
  | commit
deriving DecidableEq

/-- What the recycler sends to others. -/
inductive RecyclerEffect where
  | notify (event : StreamEvent Block)
  | registryCheck (hash : Bytes)
  | registryAdd (hash : Bytes)
  | blockCacheGet (hash : Bytes)
  | blockCacheStatus (hash : Bytes)
  | acquireEphemeral (hash : Hash)
  | clearEphemeral (hash : Hash)
  | storeBlock (hash : Hash) (fib : UInt32)
  | findBlock (hash : Option Bytes)
deriving DecidableEq

/-- `ori_t`, as far as the recycler looks at it. -/
structure RecyclerOri where
  blockType : BlockSize
  tupleSize : Nat
  fileHash : Option Bytes
  descriptorOffset : Nat
  descriptorHash : Option Bytes

/-- `recycler_recipe_t` with what it has sent. -/
structure RecyclerRecipe where
  hasRegistry : Bool
  hasNetwork : Bool
  putIsEphemeral : Bool
  overrideMode : RecycleEphemeral
  oris : List RecyclerOri
  oriIndex : Nat
  descriptor : List Bytes
  descriptorIndex : Nat
  endcap : Option Bytes
  descriptorLoaded : Bool
  loadingDescriptor : Bool
  pendingPull : Int
  descriptorOffset : Nat
  nextDescriptorHash : Option Bytes
  frontHashes : List Bytes
  backHashes : List Bytes
  descriptorPad : Nat
  cutPoint : Nat
  state : RecipeState
  pendingFetchHash : Option Bytes
  acquiredHashes : List Hash
  enforceDecision : EnforceDecision
  enforceFib : UInt32
  enforceHash : Option Bytes
  enforceDescriptorHash : Option Bytes
  isDeactivated : Bool
  sent : List RecyclerEffect

/-- The answer of the cache, with its report where no data was asked for. -/
structure RecyclerGetResult where
  hash : Option Bytes
  block : Option Block
  noData : Bool
  entryExisted : Bool
  ephemeralEntry : Bool
  fib : UInt32

/-- `recycler_recipe_create`. -/
def recyclerRecipeCreate (oris : List RecyclerOri) (hasRegistry hasNetwork putIsEphemeral : Bool)
    (overrideMode : RecycleEphemeral) : RecyclerRecipe where
  hasRegistry := hasRegistry
  hasNetwork := hasNetwork
  putIsEphemeral := putIsEphemeral
  overrideMode := overrideMode
  oris := oris
  oriIndex := 0
  descriptor := []
  descriptorIndex := 0
  endcap := none
  descriptorLoaded := false
  loadingDescriptor := false
  pendingPull := 0
  descriptorOffset := 0
  nextDescriptorHash := none
  frontHashes := []
  backHashes := []
  descriptorPad := 0
  cutPoint := 0
  state := .fetchingBlock
  pendingFetchHash := none
  acquiredHashes := []
  enforceDecision := .deliver
  enforceFib := 0
  enforceHash := none
  enforceDescriptorHash := none
  isDeactivated := false
  sent := []

namespace RecyclerRecipe

/-- Send effects, in order. -/
def send (recipe : RecyclerRecipe) (effects : List RecyclerEffect) : RecyclerRecipe :=
  { recipe with sent := recipe.sent ++ effects }

/-- `stream_deactivate`. -/
def deactivate (recipe : RecyclerRecipe) (message : String) : RecyclerRecipe :=
  if recipe.isDeactivated then
    recipe
  else
    { recipe with isDeactivated := true }.send [.notify (.error message), .notify .close]

end RecyclerRecipe

/-- `_start_descriptor_load`; representations without a descriptor are passed over. -/
def startDescriptorLoad : Nat → RecyclerRecipe → RecyclerRecipe
  | 0, recipe => recipe
  | rounds + 1, recipe =>
    match recipe.oris[recipe.oriIndex]? with
    | none => { recipe with isDeactivated := true }.send [.notify .complete, .notify .close]
    | some ori =>
      match ori.descriptorHash with
      | none =>
        startDescriptorLoad rounds { recipe with oriIndex := recipe.oriIndex + 1 }
      | some hash =>
        let pad := (ori.fileHash.map List.length).getD 32
        { recipe with
          loadingDescriptor := true
          descriptorOffset := 0
          descriptorPad := pad
          cutPoint := ori.blockType.bytes / pad * pad
          frontHashes := []
          backHashes := []
          sent := recipe.sent ++ (if recipe.hasRegistry then [.registryCheck hash] else []) ++
            [.blockCacheGet hash] }

def loadNextDescriptor (recipe : RecyclerRecipe) : RecyclerRecipe :=
  startDescriptorLoad (recipe.oris.length + 1) recipe

/-- A hash at an offset of a block, with those of the sums apart. -/
def collectHash (tupleSize : Nat) (recipe : RecyclerRecipe) (offset : Nat)
    (hash : Bytes) : RecyclerRecipe :=
  if offset / recipe.descriptorPad % tupleSize < sizeSub tupleSize 1 then
    { recipe with frontHashes := recipe.frontHashes ++ [hash] }
  else
    { recipe with backHashes := recipe.backHashes ++ [hash] }

/-- `_process_descriptor_block`. -/
def recyclerProcessBlock (recipe : RecyclerRecipe) (ori : RecyclerOri)
    (blockData : Bytes) : RecyclerRecipe :=
  let skips := 0 < ori.descriptorOffset ∧ recipe.descriptorOffset = 0
  let offset :=
    if skips then
      ori.descriptorOffset / recipe.descriptorPad * recipe.descriptorPad
    else
      0
  let recipe := if skips then { recipe with descriptorOffset := offset } else recipe
  let stop := dataEnd recipe.descriptorPad recipe.cutPoint blockData
  let collected := sliceLoop recipe.descriptorPad stop blockData
    (collectHash ori.tupleSize) (stop + 1) offset recipe
  match nextPointer recipe.descriptorPad stop blockData with
  | some next => { collected with nextDescriptorHash := some next }
  | none => collected

/-- `_finish_descriptor_load`. -/
def finishDescriptorLoad (recipe : RecyclerRecipe) : RecyclerRecipe :=
  { recipe with
    endcap := recipe.backHashes.getLast?.orElse fun _ => recipe.endcap
    descriptor := recipe.frontHashes ++ recipe.backHashes.dropLast
    frontHashes := []
    backHashes := []
    descriptorIndex := 0
    descriptorLoaded := true
    loadingDescriptor := false }

/-- `_recycler_check_status`. -/
def recyclerCheckStatus (recipe : RecyclerRecipe) (hash : Bytes) : RecyclerRecipe :=
  if hash.length ≠ 32 then
    recipe
  else
    { recipe with
      enforceDescriptorHash := recipe.oris[recipe.oriIndex]?.bind RecyclerOri.descriptorHash
      enforceHash := some hash
      enforceDecision := .deliver
      enforceFib := 0 }.send [.blockCacheStatus hash]

/-- The first hash from an index on that is not of zeros. -/
def skipZeros (descriptor : List Bytes) (index : Nat) : Nat :=
  index + ((descriptor.drop index).takeWhile fun hash => isZeroBuffer hash).length

/-- `_try_fetch_next`. -/
def tryFetchNext (recipe : RecyclerRecipe) : RecyclerRecipe :=
  if recipe.isDeactivated then
    recipe
  else
    let index := skipZeros recipe.descriptor recipe.descriptorIndex
    match recipe.descriptor[index]? with
    | none =>
      loadNextDescriptor
        { recipe with
          descriptor := []
          endcap := none
          descriptorIndex := 0
          descriptorLoaded := false
          oriIndex := recipe.oriIndex + 1 }
    | some hash =>
      if recipe.enforceHash.isSome then
        { recipe with descriptorIndex := index }
      else
        recyclerCheckStatus { recipe with descriptorIndex := index + 1 } hash

/-- The next block, if one has been asked for. -/
def servePull (recipe : RecyclerRecipe) : RecyclerRecipe :=
  if 0 < recipe.pendingPull ∧ ¬ recipe.isDeactivated then
    tryFetchNext recipe
  else
    recipe

def descriptorBlockLoaded (recipe : RecyclerRecipe) (blockData : Bytes) :
    Option RecyclerRecipe := do
  let ori ← recipe.oris[recipe.oriIndex]?
  let processed := recyclerProcessBlock recipe ori blockData
  match processed.nextDescriptorHash with
  | some hash => return { processed with nextDescriptorHash := none }.send [.blockCacheGet hash]
  | none => return servePull (finishDescriptorLoad processed)

/-- A descriptor that cannot be loaded is passed over. -/
def skipDescriptor (recipe : RecyclerRecipe) : RecyclerRecipe :=
  loadNextDescriptor
    { recipe with
      frontHashes := []
      backHashes := []
      nextDescriptorHash := none
      oriIndex := recipe.oriIndex + 1
      loadingDescriptor := false }

/-- The block is delivered, and the decision about it is carried out. -/
def deliverBlock (recipe : RecyclerRecipe) (block : Block) : RecyclerRecipe :=
  let enforced :=
    match recipe.enforceDecision with
    | .deliver => recipe
    | .propagate =>
      { recipe with acquiredHashes := recipe.acquiredHashes ++ [block.hash] }.send
          [.acquireEphemeral block.hash]
    | .commit =>
      let cleared := recipe.send [.clearEphemeral block.hash]
      if recipe.hasNetwork then
        cleared.send [.storeBlock block.hash
            (if 0 < recipe.enforceFib then recipe.enforceFib else 1)]
      else
        cleared
  { enforced with
    enforceDecision := .deliver
    enforceFib := 0
    enforceHash := none
    pendingPull := recipe.pendingPull - 1 }.send [.notify (.data block)]

/-- The report on a block before it is fetched. -/
def recyclerReport (recipe : RecyclerRecipe) (result : RecyclerGetResult) : RecyclerRecipe :=
  if recipe.enforceHash.isNone ∨ result.hash.isNone ∨
      result.hash ≠ recipe.enforceHash then
    recipe
  else
    let fetch (recipe : RecyclerRecipe) : RecyclerRecipe :=
      { recipe with enforceDescriptorHash := none }.send
        (recipe.enforceHash.toList.map .blockCacheGet)
    if result.entryExisted ∧ result.ephemeralEntry then
      let healed :=
        if recipe.hasRegistry then
          recipe.send (recipe.enforceDescriptorHash.toList.map .registryAdd)
        else
          recipe
      if recipe.putIsEphemeral ∨ recipe.overrideMode = .propagate then
        fetch { healed with enforceDecision := .propagate }
      else if recipe.overrideMode = .commit then
        fetch
          { healed with
            enforceDecision := .commit
            enforceFib := if 0 < result.fib then result.fib else 1 }
      else
        { healed with
          enforceHash := none
          enforceDescriptorHash := none }.deactivate "recycle source is ephemeral/unverified"
    else
      fetch recipe

/-- `CACHE_GET_RESULT`. -/
def recyclerGetResult (recipe : RecyclerRecipe)
    (result : RecyclerGetResult) : Option RecyclerRecipe :=
  if recipe.isDeactivated then
    some recipe
  else if result.noData then
    some (recyclerReport recipe result)
  else if recipe.loadingDescriptor then
    match result.block with
    | some block => descriptorBlockLoaded recipe block.data
    | none =>
      if recipe.hasNetwork then
        some ({ recipe with
          state := .awaitingNetwork
          pendingFetchHash := result.hash }.send [.findBlock result.hash])
      else
        some (skipDescriptor recipe)
  else
    match result.block with
    | some block => some (servePull (deliverBlock recipe block))
    | none =>
      -- The hash that was held replaces the one of the answer, which is
      -- gone when the network is asked.
      let hash := if recipe.enforceHash.isSome then none else result.hash
      let missed :=
        if recipe.enforceHash.isSome then
          { recipe with pendingFetchHash := recipe.enforceHash, enforceHash := none }
        else
          recipe
      if recipe.hasNetwork then
        some ({ missed with
          state := .awaitingNetwork
          pendingFetchHash := hash }.send [.findBlock hash])
      else
        some (missed.deactivate "Block not found")

/-- `READABLE_PULL`. -/
def recyclerPull (recipe : RecyclerRecipe) : RecyclerRecipe :=
  if recipe.isDeactivated then
    recipe
  else
    let started :=
      if ¬ recipe.descriptorLoaded ∧ ¬ recipe.loadingDescriptor then
        loadNextDescriptor recipe
      else
        recipe
    let counted := { started with pendingPull := started.pendingPull + 1 }
    if counted.descriptorLoaded then tryFetchNext counted else counted

/-- The blocks that the recycler has asked for. -/
def recyclerRequests (recipe : RecyclerRecipe) : List Bytes :=
  recipe.sent.filterMap fun
    | .blockCacheGet hash => some hash
    | _ => none

/-- The answer of a cache that has a block under the hash, or none. -/
def recyclerAnswer (hashData : Bytes → Hash) (recipe : RecyclerRecipe)
    (hash : Bytes) (data : Option Bytes) : Option RecyclerRecipe :=
  recyclerGetResult recipe
    { hash := some hash
      block := data.map fun data => ⟨data, hashData data⟩
      noData := false
      entryExisted := data.isSome
      ephemeralEntry := false
      fib := 0 }

/-- A block completes the descriptor; what is loaded is complete before the pull is served. -/
def Completes (hashData : Bytes → Hash) (recipe : RecyclerRecipe) (hash data : Bytes)
    (loaded : RecyclerRecipe) : Prop :=
  recyclerAnswer hashData recipe hash (some data) = some (servePull loaded) ∧
    ∃ ori, recipe.oris[recipe.oriIndex]? = some ori ∧
      loaded = finishDescriptorLoad (recyclerProcessBlock recipe ori data)

theorem Completes.unique {hash : Bytes} (one : Completes hashData recipe hash data first)
    (other : Completes hashData recipe hash data second) : first = second := by
  obtain ⟨_, ori, found, rfl⟩ := one
  obtain ⟨_, same, again, rfl⟩ := other
  cases found.symm.trans again
  rfl

/-- A recycler that loads its only descriptor, with the hashes so far. -/
structure LoadWalk (type : BlockSize) (hashes requested : List Bytes)
    (recipe : RecyclerRecipe) : Prop where
  only : ∃ ori, recipe.oris = [ori] ∧ ori.descriptorOffset = 0
  first : recipe.oriIndex = 0
  active : recipe.isDeactivated = false
  loading : recipe.loadingDescriptor = true
  pad : recipe.descriptorPad = 32
  cut : recipe.cutPoint = type.bytes / 32 * 32
  next : recipe.nextDescriptorHash = none
  hashes : (recipe.frontHashes ++ recipe.backHashes).Perm hashes
  fresh : recipe.endcap = none
  asked : recyclerRequests recipe = requested

namespace LoadWalk

variable {type : BlockSize} {hashes requested : List Bytes}
variable {recipe : RecyclerRecipe}

variable {data : Bytes} {keys : List Bytes}

variable (hashData : Bytes → Hash)

/-- Behind the last descriptor no other one is asked for. -/
theorem servePull_last (recipe : RecyclerRecipe) (only : recipe.oris = [ori])
    (first : recipe.oriIndex = 0) :
    recyclerRequests (servePull recipe) = recyclerRequests recipe := by
  rw [servePull]
  split
  · rw [tryFetchNext]
    split
    · rfl
    · simp only
      split
      · simp [loadNextDescriptor, startDescriptorLoad, only, first,
          recyclerRequests, RecyclerRecipe.send]
      · split
        · rfl
        · rw [recyclerCheckStatus]
          split
          · rfl
          · simp [recyclerRequests, RecyclerRecipe.send]
  · rfl

variable (loading : LoadWalk type hashes requested recipe)
include loading

/-- Every hash goes to one of the two lists. -/
theorem collect (tupleSize offset : Nat) (hash : Bytes) :
    LoadWalk type (hashes ++ [hash]) requested (collectHash tupleSize recipe offset hash) := by
  rw [collectHash]
  split
  · refine { loading with hashes := ?_ }
    have moved : (recipe.frontHashes ++ [hash] ++ recipe.backHashes).Perm
        (recipe.frontHashes ++ recipe.backHashes ++ [hash]) := by
      rw [append_assoc, append_assoc]
      exact perm_append_comm.append_left _
    exact moved.trans (loading.hashes.append_right _)
  · refine { loading with hashes := ?_ }
    rw [← append_assoc]
    exact loading.hashes.append_right _

theorem slices (tupleSize offset : Nat) (keys : List Bytes) :
    LoadWalk type (hashes ++ keys.filter fun key => ¬ isZeroBuffer key) requested
      (foldSlices (collectHash tupleSize) offset keys recipe) := by
  induction keys generalizing hashes recipe offset with
  | nil =>
    rw [filter_nil, append_nil]
    exact loading
  | cons key keys ih =>
    rw [foldSlices]
    by_cases zero : isZeroBuffer key
    · rw [if_pos zero, filter_cons_of_neg (by simp [zero])]
      exact ih loading _
    · rw [if_neg zero, filter_cons_of_pos (by simp [zero]), ← singleton_append, ← append_assoc]
      exact ih (loading.collect tupleSize offset key) _

theorem answer_eq (hash : Bytes) :
    recyclerAnswer hashData recipe hash (some data) = descriptorBlockLoaded recipe data := by
  rw [recyclerAnswer, recyclerGetResult, if_neg (by simp [loading.active]),
    if_neg (by simp), if_pos loading.loading]
  rfl

variable (places : Places type data keys)
include places

theorem process {ori : RecyclerOri} (whole : ori.descriptorOffset = 0) :
    ∃ collected, LoadWalk type (hashes ++ keys.filter fun key => ¬ isZeroBuffer key)
        requested collected ∧ recyclerProcessBlock recipe ori data =
        { collected with nextDescriptorHash := blockLink type data } := by
  have collected := loading.slices ori.tupleSize 0 keys
  refine ⟨_, collected, ?_⟩
  simp only [recyclerProcessBlock, whole, lt_self_iff_false, false_and,
    if_false, loading.pad, loading.cut, places.dataEnd_eq, places.sliceLoop_eq, blockLink]
  cases nextPointer 32 (hashesPerBlock type * 32 - 32) data with
  | none =>
    simp only
    rw [← collected.next]
  | some next => rfl

theorem answer_next (hash : Bytes) {next : Bytes} (link : blockLink type data = some next) :
    ∃ later, recyclerAnswer hashData recipe hash (some data) = some later ∧
      LoadWalk type (hashes ++ keys.filter fun key => ¬ isZeroBuffer key)
        (requested ++ [next]) later := by
  obtain ⟨ori, only, whole⟩ := loading.only
  obtain ⟨collected, walk, processed⟩ := loading.process places whole
  rw [link] at processed
  refine ⟨{ collected with nextDescriptorHash := none }.send [.blockCacheGet next], ?_, ?_⟩
  · rw [loading.answer_eq, descriptorBlockLoaded, only, loading.first]
    simp [processed]
  · refine { walk with next := rfl, asked := ?_ }
    rw [← walk.asked]
    simp [recyclerRequests, RecyclerRecipe.send]

/-- A block that ends the chain. -/
theorem answer_end (hash : Bytes) (final : blockLink type data = none) :
    ∃ loaded, Completes hashData recipe hash data loaded ∧
      recyclerRequests (servePull loaded) = requested ∧
      (loaded.descriptor ++ loaded.endcap.toList).Perm
        (hashes ++ keys.filter fun key => ¬ isZeroBuffer key) := by
  obtain ⟨ori, only, whole⟩ := loading.only
  obtain ⟨collected, walk, processed⟩ := loading.process places whole
  rw [final] at processed
  obtain ⟨ori', only', _⟩ := walk.only
  have asked := servePull_last
    (finishDescriptorLoad { collected with nextDescriptorHash := none }) only' walk.first
  have named : recipe.oris[recipe.oriIndex]? = some ori := by
    rw [only, loading.first]
    rfl
  refine ⟨finishDescriptorLoad { collected with nextDescriptorHash := none },
    ⟨?_, ori, named, by rw [processed]⟩, asked.trans walk.asked, ?_⟩
  · rw [loading.answer_eq, descriptorBlockLoaded, named]
    simp [processed]
  · have all : collected.backHashes.dropLast ++ collected.backHashes.getLast?.toList =
        collected.backHashes := by
      cases collected.backHashes using List.reverseRecOn <;> simp
    have same : (collected.frontHashes ++ collected.backHashes.dropLast) ++
        (collected.backHashes.getLast?.orElse fun _ => collected.endcap).toList =
        collected.frontHashes ++ collected.backHashes := by
      rw [walk.fresh, append_assoc]
      cases last : collected.backHashes.getLast? <;> simp_all
    exact (Perm.of_eq same).trans walk.hashes

end LoadWalk

end Liboffs.OffStreams
