import Liboffs.BlockCache.LruCoherence

/-!
# Groups of puts

A client's put stores its blocks under a group, and the cache writes down
which blocks the group has created.  When the put fails, the end of the group
deletes them.  A block that another put was told to be stored is lost that
way if it stands on the receipt of the group.
-/

namespace Liboffs.BlockCache

open Library List Option

/-- A cache, and the puts whose blocks have been in the index since they were stored. -/
structure Ledger where
  cache : Cache
  answered : List (Hash × UInt32)

/-- The put that a step tells that its block is stored. -/
def answers (world : World) (cache : Cache) : CacheStep → List (Hash × UInt32)
  | .cache (.put put now) =>
    match cachePut world cache put now with
    | some (_, result) =>
      if result.result = .new ∨ result.result = .exists_ then
        [(put.block.hash, put.putGroup)]
      else
        []
    | none => []
  | _ => []

/-- A step of the cache; what leaves the index leaves the ledger. -/
def ledgerStep (world : World) (ledger : Ledger) (step : CacheStep) : Option Ledger :=
  (cacheStep world ledger.cache step).map fun next =>
    { cache := next
      answered :=
        (answers world ledger.cache step ++ ledger.answered).filter
          fun answer => (indexFind next.index answer.1).isSome }

/-- The end of a group by failure leaves what other puts rely on. -/
def SparesOthers (world : World) (ledger : Ledger) : CacheStep → Prop
  | .cache (.putGroupEnd group true) =>
    ∀ next,
      cacheStep world ledger.cache (.cache (.putGroupEnd group true)) = some next →
        ∀ answer ∈ ledger.answered, answer.2 ≠ group → (indexFind next.index answer.1).isSome
  | _ => True

/-- A block on the receipt of a failed group has been promised to others. -/
def endangers (ledger : Ledger) : CacheStep → Bool
  | .cache (.putGroupEnd group true) =>
    ledger.answered.any fun answer =>
      decide (answer.2 ≠ group) && decide (answer.1 ∈ recordedHashes ledger.cache group true)
  | _ => false

section
variable {world : World} {cache after : Cache}

theorem indexFind_deleteRecorded {hashes : List Hash} (wellFormed : cache.index.WellFormed)
    (ran : deleteRecorded world hashes cache = some after) (hash : Hash) :
    indexFind after.index hash = if hash ∈ hashes then none else indexFind cache.index hash := by
  induction hashes generalizing cache with
  | nil =>
    cases ran
    simp
  | cons first rest ih =>
    rw [deleteRecorded] at ran
    split at ran
    · rename_i ref found
      have cleared := touches_cacheClearPins world cache ref
      have kept := cleared.wellFormed wellFormed
      rw [ih (wellFormed_without kept first) ran, indexFind_without kept, cleared.keys.indexFind]
      by_cases listed : hash ∈ rest
      · simp [listed]
      · by_cases same : hash = first
        · simp [same]
        · simp [listed, same]
    · rename_i absent
      rw [ih wellFormed ran]
      by_cases same : hash = first
      · simp [same, absent]
      · simp [same]

end

/-- The index is sound, and it holds the blocks of the ledger. -/
structure Ledger.Kept (ledger : Ledger) : Prop where
  wellFormed : ledger.cache.index.WellFormed
  indexed : ∀ answer ∈ ledger.answered, (indexFind ledger.cache.index answer.1).isSome

theorem Ledger.Kept.step {world : World} {ledger next : Ledger} {step : CacheStep}
    (kept : ledger.Kept) (stepped : ledgerStep world ledger step = some next) : next.Kept := by
  rcases map_eq_some_iff.mp stepped with ⟨cache, done, rfl⟩
  constructor
  · exact (cacheStep_cases done).wellFormed kept.wellFormed
  · intro answer member
    exact (mem_filter.mp member).2

theorem sparesOthers_iff (kept : ledger.Kept) (stepped : ledgerStep world ledger step = some new) :
    SparesOthers world ledger step ↔ endangers ledger step = false := by
  rcases map_eq_some_iff.mp stepped with ⟨cache, done, rfl⟩
  unfold SparesOthers endangers
  split
  · rename_i group
    have found (hash : Hash) : indexFind cache.index hash =
        if hash ∈ recordedHashes ledger.cache group true then none
        else indexFind ledger.cache.index hash := by
      cases cacheStep_cases done with
      | ended swept tombs new ran => exact indexFind_deleteRecorded kept.wellFormed ran hash
      | touched still changes => cases still
    simp only [List.any_eq_false, Bool.and_eq_true, decide_eq_true_eq]
    constructor
    · rintro spares answer member ⟨other, listed⟩
      have survives := spares cache done answer member other
      rw [found, if_pos listed] at survives
      cases survives
    · intro unlisted later again answer member other
      rw [done] at again
      cases again
      rw [found, if_neg fun listed => unlisted answer member ⟨other, listed⟩]
      exact kept.indexed answer member
  · exact iff_of_true trivial rfl

/-- A failed group deletes no block that another put relies on exactly if none is on its receipt. -/
theorem failed_groups_spare_others_iff
    {world : World} {start : Cache} (sound : start.index.WellFormed) (steps : List CacheStep) :
    Runs.EachStep (ledgerStep world) (SparesOthers world) ⟨start, []⟩ steps ↔
      Runs.EachStep (ledgerStep world)
        (fun ledger step => endangers ledger step = false) ⟨start, []⟩
        steps := by
  have initial : (⟨start, []⟩ : Ledger).Kept := ⟨sound, fun _ member => absurd member not_mem_nil⟩
  constructor
  · intro spares
    apply spares.imp (fun _ _ _ kept _ stepped => kept.step stepped) _ initial
    intro ledger step next kept spared stepped
    exact (sparesOthers_iff kept stepped).mp spared
  · intro safe
    apply safe.imp (fun _ _ _ kept _ stepped => kept.step stepped) _ initial
    intro ledger step next kept harmless stepped
    exact (sparesOthers_iff kept stepped).mpr harmless

/-- The put of a small block in a group. -/
def putGrouped (byte : UInt8) (group : UInt32) : CacheStep :=
  .cache (.put ⟨nanoBlock byte, 0, false, group⟩ 0)

/-- Two groups with different blocks, of which one fails. -/
theorem failed_group_spares_other_block :
    ∃ start, createTiny = some start ∧ Runs.EachStep (ledgerStep (smallWorld reliableIo))
        (SparesOthers (smallWorld reliableIo)) ⟨start, []⟩ [putGrouped 1 7, putGrouped 2 8,
          .cache (.putGroupEnd 7 true)] := by
  obtain ⟨start, created, each⟩ : ∃ start, createTiny = some start ∧
      Runs.EachStep (ledgerStep (smallWorld reliableIo))
        (fun ledger step => endangers ledger step = false) ⟨start, []⟩
        [putGrouped 1 7, putGrouped 2 8, .cache (.putGroupEnd 7 true)] := by
    decide +kernel
  have wellFormed := wellFormed_createTiny created
  refine ⟨start, created, ?_⟩
  exact (failed_groups_spare_others_iff wellFormed _).mpr each

/-- Two groups store one block; the first fails, and the block of the second is gone. -/
theorem failed_group_deletes_shared_block :
    ∃ start shared final, createTiny = some start ∧
      cacheRun (smallWorld reliableIo) start [putGrouped 1 7] = some shared ∧
      (cachePut (smallWorld reliableIo) shared ⟨nanoBlock 1, 0, false, 8⟩
        0).map (fun done => done.2.result) = some .exists_ ∧
      cacheRun (smallWorld reliableIo) shared
          [putGrouped 1 8, .cache (.putGroupEnd 7 true)] = some final ∧
      indexFind final.index (nanoBlock 1).hash = none := by
  simp only [exists_and_left]
  decide +kernel

end Liboffs.BlockCache
