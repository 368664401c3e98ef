import Liboffs.BlockCache.IndexRecovery

/-!
# Recovery after a second crash

The first recovery reads the live log up to a damaged record and leaves the
file as it is.  New records are appended behind the damage, where the second
recovery does not find them.  It gives back the map that the first one gave,
whatever has been logged since.
-/

namespace Liboffs.BlockCache

open Library.ByteOrder Library.LoggedSystem Library.FileSlots List

/-- Of the bytes appended since the first recovery, an end is cut. -/
structure SecondCrash (env : Environment) (recovered live : Index) (files : IndexFiles)
    (intact : Nat) : Prop where
  snapshots : files.snapshots = live.files.snapshots
  closed : ∀ id ≠ live.wal, files.wals id = live.files.wals id
  cut : LogLeft env (recovered.walBytes live.wal)
    (live.walBytes live.wal) ((files.wals live.wal).getD []) intact

section
variable {env : Environment} {recovered reached live : Index}
variable {done rest : List IndexOp} {files files' : IndexFiles}
variable {intact : Nat} {last : SnapshotFile} {bucketSize : UInt64}
variable {before after : Contents} {records : List Record} {tail : Bytes}

section
variable (spec : RecoveredFrom files last bucketSize after recovered)
  (ran : indexOperateAll env recovered done = some reached)
  (complete : LastComplete env reached live rest intact)
include spec ran complete

/-- The operations since the first recovery keep the snapshots. -/
theorem newest_after_operations :
    live.wal = last.id + 1 ∧ live.files.snapshots = recovered.files.snapshots := by
  rcases performs_indexOperateAll spec.wellFormed spec.idle ran with ⟨changes, first⟩
  rcases performs_indexOperateAll first.wellFormed
    (first.extends_.isRebuilding.trans spec.idle) complete.ran with
    ⟨changes', second⟩
  have both := first.trans second
  exact ⟨both.extends_.wal.trans spec.wal, both.extends_.snapshots⟩

/-- The records that the second crash leaves behind the first log. -/
theorem records_appended (crash : SecondCrash env recovered live files' intact) :
    ∃ (appended : List Record) (tail : Bytes), (files'.wals (last.id + 1)).getD [] =
          (files.wals (last.id + 1)).getD [] ++
            (walLog env.xxh32 (appended.map Record.frame) ++ tail) ∧ Damaged env.xxh32 tail ∧
        (contentsSystem bucketSize.toNat).replayAll after appended = some reached.contents := by
  rcases performs_indexOperateAll spec.wellFormed spec.idle ran with ⟨changes, performed⟩
  have sound := spec.wellFormed.sound
  have steps := performed.ran
  have log := performed.walBytes spec.idle
  have wal := (newest_after_operations spec ran complete).1
  have cut := crash.cut
  rw [← performed.extends_.bucketSize] at sound steps log
  rw [wal, ← spec.wal] at cut
  rcases records_left performed.wellFormed
    (performed.extends_.isRebuilding.trans spec.idle) complete
    (by rw [wal, ← spec.wal]; exact cut) sound steps log with
    ⟨appended, tail, left, damaged, _, replayed⟩
  refine ⟨appended, tail, ?_, damaged, ?_⟩
  · rw [spec.wal, spec.log] at left
    exact left
  · rw [performed.extends_.bucketSize, spec.bucketSize, spec.contents] at replayed
    exact replayed

end

theorem newestState_after_second (state : NewestState env files last bucketSize before after records
      tail) (spec : RecoveredFrom files last bucketSize after recovered)
    (ran : indexOperateAll env recovered done = some reached)
    (complete : LastComplete env reached live rest intact)
    (crash : SecondCrash env recovered live files' intact)
    (log : (files'.wals (last.id + 1)).getD [] =
      walLog env.xxh32 (records'.map Record.frame) ++ tail')
    (replayed : (contentsSystem bucketSize.toNat).replayAll before records' = some result) :
    NewestState env files' last bucketSize before result records' tail' := by
  have snapshots := crash.snapshots.trans (newest_after_operations spec ran complete).2
  refine ⟨?_, ?_, state.snapshot, state.sound, log, replayed⟩
  · rw [snapshots]
    exact spec.newest
  · rw [snapshots]
    exact spec.newestId

end

/-- Equal contents are the same map. -/
theorem entryOf_congr {first second : Index}
    (same : first.contents = second.contents) (hash : Hash) :
    first.entryOf hash = second.entryOf hash := by
  rw [entryOf_eq_lookup, entryOf_eq_lookup, same]

/--
The second recovery gives the last complete state exactly if the first crash left no rest, or
nothing has changed since.
-/
theorem second_recovery_iff (env : Environment) (write write' : SnapshotWrite) {bucketSize : UInt64}
    {maxSnapshots maxWals : Nat} {steps : List IndexStep} {reached live : Index}
    {ops : List IndexOp} {files : IndexFiles} {kept : List SnapshotFile} {intact : Nat}
    (ran : indexRun env (freshIndex bucketSize maxSnapshots maxWals) steps = some reached)
    (complete : CompleteRollovers steps) (last : LastComplete env reached live ops intact)
    (crash : CrashFiles env live files kept [] [] intact) (nonempty : kept ≠ [])
    (fits : ((files.wals live.wal).getD []).length ≤
      walSizeField ((files.wals live.wal).getD []).length) (configured : UInt64)
    (newMaxSnapshots newMaxWals : Nat) {recovered : Index} {code : Int}
    (created : indexCreate env write files configured newMaxSnapshots
      newMaxWals = some (recovered, code)) {done rest : List IndexOp} {reached' live' : Index}
    {files' : IndexFiles} {intact' : Nat}
    (operated : indexOperateAll env recovered done = some reached')
    (last' : LastComplete env reached' live' rest intact')
    (crash' : SecondCrash env recovered live' files' intact')
    (fits' : ((files'.wals live.wal).getD []).length ≤
      walSizeField ((files'.wals live.wal).getD []).length)
    (detected : intact < ((files.wals live.wal).getD []).length →
      Damaged env.xxh32 (((files'.wals live.wal).getD []).drop intact)) :
    (∀ hash, recovered.entryOf hash = reached.entryOf hash) ∧ ∃ second code',
        indexCreate env write' files' configured newMaxSnapshots newMaxWals = some (second, code') ∧
          ((∀ hash, second.entryOf hash = reached'.entryOf hash) ↔
            ((files.wals live.wal).getD []).length ≤ intact ∨
              ∀ hash, recovered.entryOf hash = reached'.entryOf hash) := by
  have chronicle := chronicle_indexRun
    (chronicle_freshIndex env bucketSize maxSnapshots maxWals) complete ran
  rcases eq_nil_or_concat kept with rfl | ⟨older, file, rfl⟩
  · exact absurd rfl nonempty
  rw [concat_eq_append] at crash
  rcases newestState_of_crash chronicle last crash with
    ⟨next, before, records, tail, state, damaged, rfl⟩
  rw [← next] at fits fits' detected ⊢
  rcases indexCreate_newest env write state damaged fits with ⟨index, code₀, created₀, spec⟩
  obtain ⟨rfl, rfl⟩ := Prod.mk.inj (Option.some.inj (created₀.symm.trans created))
  refine ⟨entryOf_congr spec.contents, ?_⟩
  rcases records_appended spec operated last' crash' with
    ⟨appended, tail', left, damaged', replayed'⟩
  have log := state.log
  rw [log, length_append] at detected ⊢
  rw [log] at left
  by_cases clean : tail = []
  · have left' : (files'.wals (file.id + 1)).getD [] =
        walLog env.xxh32 ((records ++ appended).map Record.frame) ++ tail' := by
      rw [left, clean, append_nil, map_append, walLog_append, append_assoc]
    have replayed : (contentsSystem reached.bucketSize.toNat).replayAll
        before (records ++ appended) = some reached'.contents := by
      rw [System.replayAll_append, state.replayed]
      exact replayed'
    rcases indexCreate_newest env write'
      (newestState_after_second state spec operated last' crash' left'
        replayed) damaged' fits' with
      ⟨second, code', created', spec'⟩
    refine ⟨second, code', created', ?_⟩
    have same := entryOf_congr spec'.contents
    simp [clean, same]
  · have positive := length_pos_of_ne_nil clean
    have behind := detected (Nat.lt_add_of_pos_right positive)
    rw [left, append_assoc, drop_left] at behind
    rw [append_assoc] at left
    rcases indexCreate_newest env write'
      (newestState_after_second state spec operated last' crash' left
        state.replayed) behind fits' with ⟨second, code', created', spec'⟩
    refine ⟨second, code', created', ?_⟩
    have same := entryOf_congr (spec'.contents.trans spec.contents.symm)
    simp [clean, same]

def tornRecovered : Index :=
  ((indexCreate referenceEnvironment .complete tornFiles 25 3 3).map Prod.fst).getD savedIndex

/-- The recovered index after another hit. -/
def tornHit : Index :=
  (indexOperate referenceEnvironment tornRecovered (.get zeroHash)).getD tornRecovered

theorem walBytes_tornHit :
    tornHit.walBytes 2 = [105] ++ walLog referenceEnvironment.xxh32
      [(Record.increment (indexEntryCreate zeroHash)).frame] := by
  decide +kernel

theorem lastComplete_tornHit :
    LastComplete referenceEnvironment tornHit tornHit [] (tornHit.walBytes 2).length := by
  refine ⟨rfl, le_refl _, ?_⟩
  intro op rest next impossible
  cases impossible

theorem secondCrash_tornHit :
    SecondCrash referenceEnvironment tornRecovered tornHit tornHit.files
      (tornHit.walBytes 2).length := by
  refine ⟨rfl, fun _ _ => rfl, ?_⟩
  refine ⟨_, [], 1, ?_, walBytes_tornHit, ?_, ⟨.shortType, rfl⟩, ?_⟩
  · intro frame member
    obtain rfl := mem_singleton.mp member
    exact sized_frame _
  · rw [append_nil]
    exact walBytes_tornHit
  · rw [walBytes_tornHit, length_append]
    rfl

/-- At a torn record the second recovery gives what the first one gave. -/
theorem second_recovery_of_torn_hit :
    (∀ hash, tornRecovered.entryOf hash = savedIndex.entryOf hash) ∧ ∃ second code,
        indexCreate referenceEnvironment .complete tornHit.files 25 3 3 = some (second, code) ∧
          ((∀ hash, second.entryOf hash = tornHit.entryOf hash) ↔ [(105 : UInt8)].length ≤ 0 ∨
              ∀ hash, tornRecovered.entryOf hash = tornHit.entryOf hash) :=
  second_recovery_iff referenceEnvironment .complete .complete
    indexRun_savedIndex completeRollovers_savedIndex
    lastComplete_savedIndexHit crashFiles_tornFiles (by decide)
    (by decide) 25 3 3 (by rfl)
    (show indexOperateAll referenceEnvironment tornRecovered
      [.get zeroHash] = some tornHit from rfl)
    lastComplete_tornHit secondCrash_tornHit (by decide +kernel)
    (fun _ => ⟨.badCrc, by decide +kernel⟩)

/-- A hit that is logged behind a torn record is lost in the next crash. -/
theorem hit_behind_torn_record_is_lost :
    indexCreate referenceEnvironment .complete tornFiles 25 3 3 = some (tornRecovered, 0) ∧
      indexOperateAll referenceEnvironment tornRecovered [.get zeroHash] = some tornHit ∧
      SecondCrash referenceEnvironment tornRecovered tornHit tornHit.files
        (tornHit.walBytes 2).length ∧ (tornHit.entryOf zeroHash).map (·.counter.fib) = some 1 ∧
      (indexCreate referenceEnvironment .complete tornHit.files 25 3 3).map
        (fun result => (result.1.entryOf zeroHash).map (·.counter.fib)) = some (some 0) := by
  refine ⟨rfl, rfl, secondCrash_tornHit, ?_, ?_⟩
  · decide +kernel
  · decide +kernel

end Liboffs.BlockCache
