import Liboffs.BlockCache.IndexRecovery

/-!
# A rule for what recovery finds

Recovery starts from some snapshot or from nothing and replays some of the
logs.  A property of contents that every readable snapshot has, and that the
replay of every log keeps, is therefore a property of what is recovered,
whichever snapshots cannot be read.
-/

namespace Liboffs.BlockCache

open Library.ByteOrder Library.LoggedSystem Library.FileSlots List Option

/-- The replay of the records has a result and keeps a property. -/
def Keeping (capacity : Nat) (good : Contents → Prop) (records : List Record) : Prop :=
  ∀ contents, Sound capacity contents → good contents → ∃ result,
      (contentsSystem capacity).replayAll contents records = some result ∧
        Sound capacity result ∧ good result

variable {records : List Record}

section
variable {capacity : Nat} {good : Contents → Prop}

theorem keeping_nil : Keeping capacity good [] :=
  fun contents sound holds => ⟨contents, rfl, sound, holds⟩

theorem Keeping.append (early : Keeping capacity good first) (late : Keeping capacity good second) :
    Keeping capacity good (first ++ second) := by
  intro contents sound holds
  rcases early contents sound holds with ⟨middle, replayed, soundMiddle, holdsMiddle⟩
  rcases late middle soundMiddle holdsMiddle with ⟨result, replayedRest, soundResult, holdsResult⟩
  refine ⟨result, ?_, soundResult, holdsResult⟩
  rw [System.replayAll_append, replayed, bind_some]
  exact replayedRest

theorem keeping_singleton (step : ∀ contents, Sound capacity contents → good contents →
      ∃ next, replayRecord capacity contents record = some next ∧ Sound capacity next ∧ good next) :
    Keeping capacity good [record] := by
  intro contents sound holds
  rcases step contents sound holds with ⟨next, replayed, kept⟩
  refine ⟨next, ?_, kept⟩
  change (replayRecord capacity contents record).bind some = _
  rw [replayed]
  rfl

/-- Records that each keep a property keep it together. -/
theorem keeping_of_forall (all : ∀ record ∈ records, Keeping capacity good [record]) :
    Keeping capacity good records := by
  induction records with
  | nil => exact keeping_nil
  | cons record rest ih =>
    change Keeping capacity good ([record] ++ rest)
    apply Keeping.append
    · exact all record mem_cons_self
    · apply ih
      intro other member
      exact all other (mem_cons_of_mem _ member)

end

section
variable (env : Environment) (good : Contents → Prop)

/-- A log is replayed as records that keep the property. -/
def LogKeeps (capacity : Nat) (bytes : Bytes) : Prop :=
  ∃ (records : List Record) (stop : WalStop),
    (∀ index : Index,
      walReplay env.xxh32 (indexReplayRecord env) bytes index =
        (actAll (indexReplayRecord env) index (records.map Record.frame)).map
          fun final => (final, stop, false)) ∧
      Keeping capacity good records

/-- A snapshot holds contents with the property, in a sound trie. -/
def SnapshotKeeps (bucketSize : UInt64) (file : SnapshotFile) : Prop :=
  ∃ contents,
    file = snapshotOf env bucketSize file.id contents ∧
      Sound bucketSize.toNat contents ∧ good contents

/-- The files of an index, of which some snapshots may be unreadable. -/
structure FilesKeep (bucketSize : UInt64) (files : IndexFiles) : Prop where
  snapshots : ∀ file ∈ files.snapshots, Unreadable env file ∨ SnapshotKeeps env good bucketSize file
  logs : ∀ id, LogKeeps env good bucketSize.toNat ((files.wals id).getD [])

/-- An index in the course of its recovery. -/
structure Rebuilding (bucketSize : UInt64) (index : Index) : Prop where
  wellFormed : index.WellFormed
  rebuilding : index.isRebuilding = true
  logs : ∀ id, LogKeeps env good bucketSize.toNat (index.walBytes id)
  bucketSize : index.bucketSize = bucketSize
  holds : good index.contents

/-- What a recovery gives. -/
structure Recovered (index : Index) : Prop where
  wellFormed : index.WellFormed
  holds : good index.contents

variable {env good} {bucketSize : UInt64}

/-- A log of records with a damaged rest, whose size can be represented. -/
theorem logKeeps_of_written {capacity : Nat} (keeping : Keeping capacity good records)
    {tail : Bytes} (damaged : Damaged env.xxh32 tail) (fits :
      (walLog env.xxh32 (records.map Record.frame) ++ tail).length ≤ walSizeField
          (walLog env.xxh32 (records.map Record.frame) ++ tail).length) :
    LogKeeps env good capacity (walLog env.xxh32 (records.map Record.frame) ++ tail) := by
  rcases damaged with ⟨stop, damaged⟩
  exact ⟨records, _, fun index =>
    walReplay_walLog env.xxh32 (indexReplayRecord env)
      (sized_frames records) damaged fits, keeping⟩

variable {index : Index}

section
variable (rebuilding : Rebuilding env good bucketSize index)
include rebuilding

theorem indexReplayWal_keeps (id : Nat) :
    ∃ next stop, indexReplayWal env index id = some (next, stop, false) ∧
        Rebuilding env good bucketSize next := by
  rcases rebuilding.logs id with ⟨records, stop, replays, keeping⟩
  have opened := extends_openWal env index id
  have same : SameEntries index (index.openWal id) := ⟨rfl, rfl, rfl⟩
  have openedSize : (index.openWal id).bucketSize = bucketSize := rebuilding.bucketSize
  have wellFormed := wellFormed_of_sameEntries rebuilding.wellFormed same opened.bucketSize
  have flagged : (index.openWal id).isRebuilding = true := rebuilding.rebuilding
  have sound := wellFormed.sound
  rw [openedSize] at sound
  rcases keeping _ sound (by rw [same.contents]; exact rebuilding.holds) with
    ⟨result, replayed, _, holds⟩
  rw [← openedSize] at replayed
  rcases actAll_indexReplayRecord env wellFormed flagged replayed with ⟨after, acted, spec⟩
  have bytes : after.walBytes = index.walBytes :=
    (spec.walBytes flagged).trans walBytes_openWal
  refine ⟨after, stop, ?_, spec.wellFormed, spec.extends_.isRebuilding.trans flagged, ?_,
    spec.extends_.bucketSize.trans openedSize, ?_⟩
  · rw [indexReplayWal, replays, acted]
    rfl
  · rw [bytes]
    exact rebuilding.logs
  · rw [spec.contents]
    exact holds

theorem replayLater_keeps :
    ∃ after, replayLater env index later false = some (after, false) ∧
      Rebuilding env good bucketSize after := by
  induction later generalizing index with
  | nil => exact ⟨index, rfl, rebuilding⟩
  | cons file rest ih =>
    rcases indexReplayWal_keeps rebuilding file.id with ⟨next, stop, replayed, spec⟩
    simp only [replayLater, replayed, bind_some, Bool.or_false]
    split
    · exact ih spec
    · exact ⟨next, rfl, spec⟩

/-- New settings and pruning after the replay change no entry. -/
theorem Rebuilding.pruned {ready : Index} (same : SameEntries index ready)
    (size : ready.bucketSize = index.bucketSize) : Recovered good (indexPrune ready) where
  wellFormed := wellFormed_indexPrune (wellFormed_of_sameEntries rebuilding.wellFormed same size)
  holds := by
    rw [(sameEntries_indexPrune ready).contents, same.contents]
    exact rebuilding.holds

end

section
variable (write : SnapshotWrite) {index : Index}
  (rebuilding : Rebuilding env good bucketSize index.startRebuilding) (lastId : Nat)
include write rebuilding lastId

theorem recoverOlder_keeps (later : List SnapshotFile) :
    ∃ recovered, recoverOlder env write index lastId later = some recovered ∧
        Recovered good recovered := by
  rcases replayLater_keeps rebuilding with ⟨next, replayed, spec⟩
  refine ⟨indexPrune
    { next.stopRebuilding with
      currentFile := later.length + 1 + lastId
      nextId := later.length + 1 + lastId + 1
      lastFile := some (later.length + 1 + lastId - 1) }, ?_,
    spec.pruned ⟨rfl, rfl, rfl⟩ rfl⟩
  rw [recoverOlder, replayed]
  rfl

end

theorem indexCreateLoop_keeps (write : SnapshotWrite) (logs : ∀ id,
      LogKeeps env good bucketSize.toNat ((files.wals id).getD [])) (maxSnapshots maxWals : Nat)
    (snapshots : ∀ file ∈ older, Unreadable env file ∨ SnapshotKeeps env good bucketSize file)
    (later : List SnapshotFile) (errorCode : Int) :
    ∃ result code, indexCreateLoop env write files maxSnapshots maxWals older later
          errorCode = some (result, code) ∧
        ∀ index, result = some index → Recovered good index := by
  induction older generalizing later errorCode with
  | nil =>
    refine ⟨none, errorCode, rfl, fun index impossible => ?_⟩
    cases impossible
  | cons file rest ih =>
    have others := ih fun other member => snapshots other (mem_cons_of_mem _ member)
    rcases snapshots file mem_cons_self with
      ⟨code, rejected⟩ | ⟨contents, snapshot, sound, holds⟩
    · rw [indexCreateLoop, rejected]
      exact others (file :: later) (code.getD errorCode)
    · have loaded := loadSnapshot_snapshotOf env sound file.id
      rw [← snapshot] at loaded
      have created := wellFormed_indexCreateFrom files bucketSize
        contents maxSnapshots maxWals sound
      have rebuilding : Rebuilding env good bucketSize
          (indexCreateFrom files bucketSize contents maxSnapshots maxWals).startRebuilding :=
        { wellFormed := wellFormed_startRebuilding created
          rebuilding := rfl
          bucketSize := rfl
          holds := by
            rw [contents_startRebuilding, contents_indexCreateFrom]
            exact holds
          logs := logs }
      rw [indexCreateLoop, loaded]
      simp only
      split
      · rcases indexReplayWal_keeps rebuilding (file.id + 1) with ⟨next, stop, replayed, spec⟩
        rw [recoverNewest, replayed]
        refine ⟨some (indexPrune next.stopRebuilding), errorCode, rfl, fun index same => ?_⟩
        cases same
        exact spec.pruned ⟨rfl, rfl, rfl⟩ rfl
      · rcases recoverOlder_keeps write rebuilding file.id later with ⟨recovered, equal, spec⟩
        rw [equal]
        refine ⟨some recovered, errorCode, rfl, fun index same => ?_⟩
        cases same
        exact spec

/-- Recovery has a result, and it has the property of the files. -/
theorem indexCreate_keeps (empty : good (.leaf []))
    (filesKeep : FilesKeep env good bucketSize files) :
    ∃ recovered code, indexCreate env write files configured maxSnapshots maxWals =
          some (recovered, code) ∧ Recovered good recovered := by
  rcases indexCreateLoop_keeps write filesKeep.logs maxSnapshots maxWals (fun file member =>
      filesKeep.snapshots file (mem_reverse.mp member)) [] 0 with
    ⟨result, code, looped, spec⟩
  have created : indexCreate env write files configured maxSnapshots maxWals = some (result.getD
        (indexNewEmpty files configured maxSnapshots maxWals), code) := by
    rw [indexCreate, looped]
    rfl
  refine ⟨_, code, created, ?_⟩
  cases result with
  | some index => exact spec index rfl
  | none =>
    refine ⟨⟨?_, sound_empty _⟩, empty⟩
    intro ref member
    cases member

end

section
variable {env : Environment} {index : Index}

theorem snapshots_indexDebounce (ids : ∀ file ∈ index.files.snapshots, file.id < index.currentFile)
    (member : file ∈ (indexDebounce env .complete index).files.snapshots) :
    file ∈ index.files.snapshots ∨ file = indexSnapshot env index := by
  rw [indexDebounce_complete] at member
  have newest : writeSnapshot (indexSnapshot env index) index.files.snapshots =
        index.files.snapshots ++ [indexSnapshot env index] :=
    writeSnapshot_newest ids
  have rolled := mem_of_mem_indexPrune member
  rw [rolledOver] at rolled
  simp only [newest] at rolled
  simpa using rolled

theorem ids_indexDebounce (env : Environment) (next : index.currentFile < index.nextId)
    (ids : ∀ file ∈ index.files.snapshots, file.id < index.currentFile) :
    (indexDebounce env .complete index).currentFile < (indexDebounce env .complete index).nextId ∧
      ∀ file ∈ (indexDebounce env .complete index).files.snapshots,
        file.id < (indexDebounce env .complete index).currentFile := by
  have fields := indexPrune_eq (rolledOver env index)
  constructor
  · rw [indexDebounce_complete, fields]
    exact Nat.lt_succ_self _
  · intro file member
    have bound : file.id < index.nextId := by
      rcases snapshots_indexDebounce ids member with old | rfl
      · exact lt_trans (ids file old) next
      · exact next
    rw [indexDebounce_complete, fields]
    exact bound

/-- A complete rollover leaves every log, or removes it. -/
theorem walBytes_indexDebounce (env : Environment) (index : Index) (id : Nat) :
    (indexDebounce env .complete index).walBytes id = [] ∨
      (indexDebounce env .complete index).walBytes id = index.walBytes id := by
  rw [indexDebounce_complete, Index.walBytes, wals_indexPrune]
  split
  · exact .inl rfl
  · exact .inr rfl

end

/-- The snapshots and the logs of a running index keep a property. -/
structure FilesTrace (env : Environment) (good : Contents → Prop) (index : Index) : Prop where
  idle : index.isRebuilding = false
  next : index.currentFile < index.nextId
  ids : ∀ file ∈ index.files.snapshots, file.id < index.currentFile
  snapshots : ∀ file ∈ index.files.snapshots, SnapshotKeeps env good index.bucketSize file
  logs : ∀ id, ∃ records : List Record,
    index.walBytes id = walLog env.xxh32 (records.map Record.frame) ∧
      Keeping index.bucketSize.toNat good records
  unused : ∀ id, index.wal < id → index.walBytes id = []

section
variable {env : Environment} {good : Contents → Prop} {before after : Index}

theorem FilesTrace.step (trace : FilesTrace env good before)
    (extends_ : Extends env before after records)
    (keeping : Keeping before.bucketSize.toNat good records) : FilesTrace env good after := by
  refine ⟨extends_.isRebuilding.trans trace.idle, ?_, ?_, ?_, ?_, ?_⟩
  · rw [extends_.currentFile, extends_.nextId]
    exact trace.next
  · rw [extends_.snapshots, extends_.currentFile]
    exact trace.ids
  · rw [extends_.snapshots, extends_.bucketSize]
    exact trace.snapshots
  · intro id
    rw [extends_.bucketSize]
    rcases trace.logs id with ⟨earlier, bytes, kept⟩
    by_cases live : id = before.wal
    · refine ⟨earlier ++ records, ?_, kept.append keeping⟩
      rw [live] at bytes ⊢
      rw [extends_.log, bytes, trace.idle]
      simp
    · exact ⟨earlier, (extends_.others id live).trans bytes, kept⟩
  · rw [extends_.wal]
    intro id later
    rw [extends_.others id (ne_of_gt later)]
    exact trace.unused id later

theorem FilesTrace.rollover (trace : FilesTrace env good before) (wellFormed : before.WellFormed)
    (holds : good before.contents) : FilesTrace env good (indexDebounce env .complete before) := by
  have size : (indexDebounce env .complete before).bucketSize = before.bucketSize := by
    rw [indexDebounce_complete, indexPrune_eq (rolledOver env before)]
    rfl
  rcases ids_indexDebounce env trace.next trace.ids with ⟨next, ids⟩
  refine ⟨?_, next, ids, ?_, ?_, ?_⟩
  · rw [indexDebounce_complete, indexPrune_eq (rolledOver env before)]
    exact trace.idle
  · intro file member
    rw [size]
    rcases snapshots_indexDebounce trace.ids member with old | rfl
    · exact trace.snapshots file old
    · exact ⟨before.contents, rfl, wellFormed.sound, holds⟩
  · intro id
    rw [size]
    rcases walBytes_indexDebounce env before id with none_ | same
    · exact ⟨[], none_, keeping_nil⟩
    · rw [same]
      exact trace.logs id
  · intro id later
    rcases walBytes_indexDebounce env before id with none_ | same
    · exact none_
    · rw [same]
      apply trace.unused
      have wal : (indexDebounce env .complete before).wal = before.wal + 1 := by
        rw [indexDebounce_complete, indexPrune_eq (rolledOver env before)]
        rfl
      omega

end

end Liboffs.BlockCache
