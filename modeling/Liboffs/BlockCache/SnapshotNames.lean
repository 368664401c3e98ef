import Liboffs.BlockCache.IndexRecovery

/-!
# The names of the snapshots and the logs

Recovery takes the log behind the newest snapshot for the live one.  The names are in step with it
in a new index and in one that was loaded from its newest snapshot, and every rollover that writes
its snapshot keeps them so.  One that fails takes a number without a snapshot, and the snapshots
behind it are numbered ahead of the logs.

An index that was loaded past a snapshot that cannot be read is not in step.
-/

namespace Liboffs.BlockCache

open Library.Runs Library.ByteOrder Library.FileSlots List

/-- The names that a rollover moves: the current and the last file, the next number and the log. -/
def Index.fileNames (index : Index) : Nat × Option Nat × Nat × Nat :=
  (index.currentFile, index.lastFile, index.nextId, index.wal)

/-- The snapshot file is complete, so that `index_create` can load it. -/
def SnapshotFile.isComplete (env : Environment) (file : SnapshotFile) : Bool :=
  match loadSnapshot env file with
  | .loaded _ _ => true
  | _ => false

/-- The number of the newest snapshot that can be loaded. -/
def newestCompleteId (env : Environment) (files : List SnapshotFile) (none : Nat) : Nat :=
  ((files.filter (SnapshotFile.isComplete env)).getLast?.map SnapshotFile.id).getD none

variable {env : Environment} {index next : Index} {files : List SnapshotFile} {last : SnapshotFile}

theorem isComplete_snapshotOf (sound : Sound bucketSize.toNat contents) (id : Nat) :
    (snapshotOf env bucketSize id contents).isComplete env = true := by
  rw [SnapshotFile.isComplete, loadSnapshot_snapshotOf env sound]

theorem newestCompleteId_eq (newest : files.getLast? = some last)
    (complete : last.isComplete env = true) (none : Nat) :
    newestCompleteId env files none = last.id := by
  obtain ⟨older, rfl⟩ := getLast?_eq_some_iff.mp newest
  rw [newestCompleteId, filter_append, filter_cons_of_pos complete, filter_nil, getLast?_concat]
  rfl

theorem getLast?_indexPrune (newest : index.files.snapshots.getLast? = some last) :
    (indexPrune index).files.snapshots.getLast? = some last := by
  rcases indexPrune_cases with files | ⟨count, first, rest, fewer, kept, pruned, _⟩
  · rw [files]
    exact newest
  · rw [pruned, ← kept, getLast?_drop, if_neg (by omega)]
    exact newest

/-- The names of an index that works are in step with its snapshots. -/
structure InStep (env : Environment) (index : Index) : Prop where
  wellFormed : index.WellFormed
  idle : index.isRebuilding = false
  currentFile : index.currentFile = index.wal
  nextId : index.nextId = index.wal + 1
  older : ∀ file ∈ index.files.snapshots, file.id < index.wal
  live : index.wal = newestCompleteId env index.files.snapshots 0 + 1

namespace InStep

theorem fresh (bucketSize : UInt64) (maxSnapshots maxWals : Nat) :
    InStep env (freshIndex bucketSize maxSnapshots maxWals) :=
  have chronicle := chronicle_freshIndex env bucketSize maxSnapshots maxWals
  ⟨chronicle.wellFormed, rfl, rfl, rfl, fun _ member => absurd member not_mem_nil, rfl⟩

/-- The index that `index_create` loads from the newest snapshot. -/
theorem recovered {files : IndexFiles} {tail : Bytes}
    (state : NewestState env files last bucketSize before contents records tail)
    (spec : RecoveredFrom files last bucketSize contents index) : InStep env index := by
  have complete : last.isComplete env = true := by
    rw [state.snapshot]
    exact isComplete_snapshotOf state.sound _
  refine ⟨spec.wellFormed, spec.idle, spec.currentFile.trans spec.wal.symm, ?_, ?_, ?_⟩
  · rw [spec.nextId, spec.wal]
  · intro file member
    rw [spec.wal]
    exact Nat.lt_succ_of_le (spec.newestId file member)
  · rw [spec.wal, newestCompleteId_eq spec.newest complete]

variable (inStep : InStep env index)
include inStep

theorem performs (performs : Performs env index next changes) : InStep env next := by
  have extends_ := performs.extends_
  constructor
  · exact performs.wellFormed
  · exact extends_.isRebuilding.trans inStep.idle
  · rw [extends_.currentFile, extends_.wal]
    exact inStep.currentFile
  · rw [extends_.nextId, extends_.wal]
    exact inStep.nextId
  · rw [extends_.snapshots, extends_.wal]
    exact inStep.older
  · rw [extends_.snapshots, extends_.wal]
    exact inStep.live

theorem rollover : InStep env (indexDebounce env .complete index) := by
  rw [indexDebounce_complete]
  have written : (rolledOver env index).files.snapshots =
      index.files.snapshots ++ [indexSnapshot env index] := by
    apply writeSnapshot_newest
    intro file member
    exact (inStep.older file member).trans_eq inStep.currentFile.symm
  have newest : (indexPrune (rolledOver env index)).files.snapshots.getLast? =
      some (indexSnapshot env index) := by
    apply getLast?_indexPrune
    rw [written, getLast?_concat]
  have wal : (indexPrune (rolledOver env index)).wal = index.wal + 1 := by
    rw [indexPrune_eq]
    rfl
  constructor
  · exact wellFormed_indexPrune (wellFormed_of_sameEntries inStep.wellFormed ⟨rfl, rfl, rfl⟩ rfl)
  · rw [indexPrune_eq]
    exact inStep.idle
  · rw [wal, indexPrune_eq]
    exact inStep.nextId
  · rw [wal, indexPrune_eq]
    exact congrArg (· + 1) inStep.nextId
  · intro file member
    rw [wal]
    have among := mem_of_mem_indexPrune member
    rw [written, mem_append, mem_singleton] at among
    rcases among with old | rfl
    · exact Nat.lt_succ_of_lt (inStep.older file old)
    · exact Nat.lt_succ_of_le (Nat.le_of_eq inStep.currentFile)
  · have complete : (indexSnapshot env index).isComplete env = true :=
      isComplete_snapshotOf inStep.wellFormed.sound _
    rw [wal, newestCompleteId_eq newest complete]
    exact congrArg (· + 1) inStep.currentFile.symm

theorem step {step : IndexStep} (complete : ∀ written, step ≠ .rollover (.failed (some written)))
    (stepped : indexStep env index step = some next) : InStep env next := by
  cases step with
  | operate op => exact inStep.performs (performs_indexOperate inStep.wellFormed inStep.idle stepped)
  | rollover write =>
    cases write with
    | complete =>
      cases stepped
      exact inStep.rollover
    | failed written =>
      cases written with
      | none => cases stepped
      | some written => exact absurd rfl (complete written)

end InStep

variable (env) in
/--
From an index that is in step, failed rollovers leave the names and the live log follows the newest
snapshot exactly if no rollover fails.  A new index is in step, and one that is loaded from its
newest snapshot.
-/
theorem failed_snapshots_keep_the_names :
    (∀ index steps, InStep env index →
      ((EachStep (indexStep env) (fun state step => ∀ written,
            step = .rollover (.failed (some written)) →
              (indexDebounce env (.failed written) state).fileNames = state.fileNames)
          index steps ∧
        Throughout (indexStep env) (fun state =>
          state.wal = newestCompleteId env state.files.snapshots 0 + 1) index steps) ↔
      EachStep (indexStep env) (fun _ step => ∀ written, step ≠ .rollover (.failed (some written)))
        index steps)) ∧
    (∀ bucketSize maxSnapshots maxWals, InStep env (freshIndex bucketSize maxSnapshots maxWals)) ∧
    ∀ files last bucketSize before after records tail,
      NewestState env files last bucketSize before after records tail → Damaged env.xxh32 tail →
      ((files.wals (last.id + 1)).getD []).length ≤
        walSizeField ((files.wals (last.id + 1)).getD []).length →
      ∀ write configured maxSnapshots maxWals, ∃ recovered code,
        indexCreate env write files configured maxSnapshots maxWals = some (recovered, code) ∧
          InStep env recovered := by
  refine ⟨fun index steps inStep => ⟨?_, fun succeeds => ⟨?_, ?_⟩⟩, InStep.fresh, ?_⟩
  · rintro ⟨kept, _⟩
    refine kept.mono fun state step next names _ written failed => ?_
    have same := congrArg (fun names => names.2.2.1) (names written failed)
    exact absurd same (Nat.succ_ne_self _)
  · exact succeeds.mono fun _ _ _ none _ written failed => absurd failed (none written)
  · exact succeeds.throughout (fun _ _ _ inStep met stepped => inStep.step met stepped)
      (fun _ => InStep.live) inStep
  · intro files last bucketSize before after records tail state damaged fits write configured
      maxSnapshots maxWals
    obtain ⟨recovered, code, created, spec⟩ := indexCreate_newest env write state damaged fits
    exact ⟨recovered, code, created, InStep.recovered state spec⟩

/-- Two rollovers around an operation. -/
theorem rollovers_keep_the_names :
    Throughout (indexStep referenceEnvironment)
      (fun state => state.wal = newestCompleteId referenceEnvironment state.files.snapshots 0 + 1)
      (freshIndex 1 0 0) [.rollover .complete, .operate (.remove zeroHash), .rollover .complete] := by
  have names := failed_snapshots_keep_the_names referenceEnvironment
  have succeed : EachStep (indexStep referenceEnvironment)
      (fun _ step => ∀ written, step ≠ .rollover (.failed (some written))) (freshIndex 1 0 0)
      [.rollover .complete, .operate (.remove zeroHash), .rollover .complete] :=
    fun _ _ => ⟨by simp, fun _ _ => ⟨by simp, fun _ _ => ⟨by simp, trivial⟩⟩⟩
  exact ((names.1 _ _ (names.2.1 1 0 0)).mpr succeed).2

/-- A failed rollover moves the next identifier, so that recovery ignores the live log. -/
theorem failed_snapshot_moves_the_names :
    (indexDebounce referenceEnvironment (.failed 0) (freshIndex 1 0 0)).fileNames ≠
        (freshIndex 1 0 0).fileNames ∧
      ∃ live, indexRun referenceEnvironment (freshIndex 1 0 0)
          [.rollover (.failed (some 0)), .rollover .complete, .rollover .complete] = some live ∧
        live.wal = 3 ∧ newestCompleteId referenceEnvironment live.files.snapshots 0 = 3 :=
  ⟨by decide, _, rfl, rfl, rfl⟩

end Liboffs.BlockCache
