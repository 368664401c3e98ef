import Liboffs.BlockCache.IndexHistory

/-!
# Recovery after a crash

A crash leaves a damaged end of the live log and perhaps unreadable snapshots.  `index_create`
rebuilds the contents after the operations whose records are complete, provided that the newest
snapshot is readable.

Otherwise the logs of the unreadable snapshots are replayed on an older one, up to an empty log,
and the live log is not replayed.  Without any snapshot no log is.
-/

namespace Liboffs.BlockCache

open Library.ByteOrder Library.LoggedSystem Library.FileSlots List Option

/--
What a crash leaves of a log behind some bytes: its first records and a damaged rest, with the
size of the intact part.
-/
def LogLeft (env : Environment) (start written left : Bytes) (intact : Nat) : Prop :=
  ∃ frames tail count,
    (∀ frame ∈ frames, Frame.Sized frame) ∧ written = start ++ walLog env.xxh32 frames ∧
      left = start ++ (walLog env.xxh32 (frames.take count) ++ tail) ∧ Damaged env.xxh32 tail ∧
      intact = start.length + (walLog env.xxh32 (frames.take count)).length

/-- A snapshot file that recovery passes over. -/
def Unreadable (env : Environment) (file : SnapshotFile) : Prop :=
  ∃ code, loadSnapshot env file = .rejected code

/-- The live log is cut, and the newest snapshot files have become unreadable. -/
structure CrashFiles (env : Environment) (live : Index) (files : IndexFiles)
    (kept lost found : List SnapshotFile) (intact : Nat) : Prop where
  before : live.files.snapshots = kept ++ lost
  after : files.snapshots = kept ++ found
  ids : found.map SnapshotFile.id = lost.map SnapshotFile.id
  unreadable : ∀ file ∈ found, Unreadable env file
  closed : ∀ id ≠ live.wal, files.wals id = live.files.wals id
  cut : LogLeft env [] (live.walBytes live.wal) ((files.wals live.wal).getD []) intact

/-- The run reaches a state complete in the intact part of the live log, and the next is not. -/
structure LastComplete (env : Environment) (reached live : Index) (ops : List IndexOp)
    (intact : Nat) : Prop where
  ran : indexOperateAll env reached ops = some live
  complete : (reached.walBytes live.wal).length ≤ intact
  last : ∀ op rest next, ops = op :: rest →
    indexOperate env reached op = some next → intact < (next.walBytes live.wal).length

section
variable (xxh32 : Bytes → UInt32)
include xxh32

theorem walLog_injective
    (firstSized : ∀ frame ∈ first, frame.Sized) (secondSized : ∀ frame ∈ second, frame.Sized)
    (equal : walLog xxh32 first = walLog xxh32 second) : first = second := by
  induction first generalizing second with
  | nil =>
    cases second with
    | nil => rfl
    | cons frame rest => simp [walRecord] at equal
  | cons frame rest ih =>
    cases second with
    | nil => simp [walRecord] at equal
    | cons frame' rest' =>
      have readFirst := walRead_walRecord xxh32 (firstSized frame mem_cons_self) (walLog xxh32 rest)
      have readSecond := walRead_walRecord xxh32
        (secondSized frame' mem_cons_self) (walLog xxh32 rest')
      rw [walLog_cons, walLog_cons] at equal
      rw [equal, readSecond] at readFirst
      have same := Except.ok.inj readFirst
      simp only [WalEntry.mk.injEq] at same
      have frames : frame' = frame := Prod.ext same.1 same.2.1
      subst frames
      rw [ih (fun other member =>
          firstSized other (mem_cons_of_mem _ member))
        (fun other member => secondSized other (mem_cons_of_mem _ member))
        (append_cancel_left equal)]

theorem length_walLog_take_append (first second : List Frame) (count : Nat) :
    (walLog xxh32 first).length ≤ (walLog xxh32 ((first ++ second).take count)).length →
      first.length ≤ count := by
  intro covers
  refine Nat.le_of_not_lt fun less => ?_
  obtain ⟨extra, equal⟩ := Nat.exists_eq_add_of_le (le_of_lt less)
  have whole := congrArg (walLog xxh32) (@take_left _ first second)
  rw [equal, take_add, walLog_append] at whole
  have rest := length_le_length_walLog xxh32 (((first ++ second).drop count).take extra)
  simp only [length_take, length_drop, length_append] at rest
  rw [← whole, length_append] at covers
  omega

end

theorem Performs.walBytes {env : Environment} {before after : Index} {changes : List Change}
    (performed : Performs env before after changes) (idle : before.isRebuilding = false) :
    after.walBytes after.wal = before.walBytes before.wal ++ walLog env.xxh32
        (((contentsSystem before.bucketSize.toNat).log before.contents
          changes).map Record.frame) := by
  have log := performed.extends_.log
  rw [idle] at log
  rw [performed.extends_.wal, log]
  rfl

variable {before after : Contents} {bucketSize : UInt64} {file last : SnapshotFile}
  {bytes : Nat → Bytes} {id : Nat} {older : List SnapshotFile}

/-- An incomplete beginning of the records of an operation has no effect. -/
theorem replayAll_take_op {env : Environment} {next : Index} {op : IndexOp}
    (wellFormed : index.WellFormed) (step : Performs env index next (opChanges index op))
    {count : Nat} (short : count < ((contentsSystem index.bucketSize.toNat).log index.contents
        (opChanges index op)).length) :
    (contentsSystem index.bucketSize.toNat).replayAll index.contents
      (((contentsSystem index.bucketSize.toNat).log index.contents
        (opChanges index op)).take count) = some index.contents := by
  have ran := step.ran
  have atMost : (opChanges index op).length ≤ 1 := by
    unfold opChanges
    split
    · rename_i mutation _
      cases mutation <;> simp [mutationChanges]
    · simp
  revert ran short atMost
  cases opChanges index op with
  | nil =>
    intro short
    simp [System.log] at short
  | cons change others =>
    intro short ran atMost
    obtain rfl : others = [] := by simpa using atMost
    obtain ⟨after, applied, _⟩ := bind_eq_some_iff.mp ran
    simp only [System.log, applied, append_nil] at short ⊢
    exact faithful_contentsSystem.incomplete wellFormed.sound applied count short

section
variable {env : Environment} {reached live : Index} {ops : List IndexOp}

/-- The records left by a crash rebuild the last complete state from the start of the live log. -/
theorem records_left (wellFormed : reached.WellFormed) (idle : reached.isRebuilding = false)
    (last : LastComplete env reached live ops intact)
    (cut : LogLeft env start (live.walBytes live.wal) left intact)
    (sound : Sound reached.bucketSize.toNat before)
    (ran : (contentsSystem reached.bucketSize.toNat).run before changes = some reached.contents)
    (reachedLog : reached.walBytes reached.wal = start ++ walLog env.xxh32
        (((contentsSystem reached.bucketSize.toNat).log before changes).map Record.frame)) :
    ∃ (records : List Record) (tail : Bytes),
      left = start ++ (walLog env.xxh32 (records.map Record.frame) ++ tail) ∧
        Damaged env.xxh32 tail ∧ intact = start.length +
          (walLog env.xxh32 (records.map Record.frame)).length ∧
        (contentsSystem reached.bucketSize.toNat).replayAll before
          records = some reached.contents := by
  obtain ⟨frames, tail, count, sized, written, rfl, damaged, rfl⟩ := cut
  have replayed := faithful_contentsSystem.replayAll_log sound ran
  have framesOf (records : List Record) (log : live.walBytes live.wal = start ++
        walLog env.xxh32 (records.map Record.frame)) :
      frames = records.map Record.frame :=
    walLog_injective env.xxh32 sized (sized_frames records)
      (append_cancel_left (written.symm.trans log))
  cases ops with
  | nil =>
    obtain rfl := Option.some.inj last.ran
    have all := framesOf _ reachedLog
    have complete := last.complete
    rw [reachedLog, all, length_append] at complete
    have enough := length_walLog_take_append env.xxh32 _ [] count
      (by rw [append_nil]; exact Nat.le_of_add_le_add_left complete)
    refine ⟨_, tail, ?_, damaged, ?_, replayed⟩
    · rw [all, take_of_length_le enough]
    · rw [all, take_of_length_le enough]
  | cons op rest =>
    obtain ⟨next, operated, others⟩ := bind_eq_some_iff.mp last.ran
    have step := performs_indexOperate wellFormed idle operated
    have awake := step.extends_.isRebuilding.trans idle
    obtain ⟨changes', steps⟩ := performs_indexOperateAll step.wellFormed awake others
    have nextLog := step.walBytes idle
    rw [reachedLog, append_assoc, ← walLog_append] at nextLog
    have liveLog := steps.walBytes awake
    rw [nextLog, append_assoc, ← walLog_append, ← map_append, ← map_append] at liveLog
    have all := framesOf _ liveLog
    simp only [map_append, append_assoc] at all
    have complete := last.complete
    rw [steps.extends_.wal, step.extends_.wal, reachedLog, all, length_append] at complete
    have enough := length_walLog_take_append env.xxh32 _ _ count
      (Nat.le_of_add_le_add_left complete)
    have incomplete := last.last op rest next rfl operated
    rw [steps.extends_.wal, nextLog, all, ← append_assoc, length_append] at incomplete
    have short := Nat.lt_of_not_le fun more => by
      rw [take_append, take_of_length_le more, walLog_append, length_append] at incomplete
      omega
    simp only [length_append, length_map] at enough short
    have taken : frames.take count =
        ((contentsSystem reached.bucketSize.toNat).log before changes ++
          ((contentsSystem reached.bucketSize.toNat).log
            reached.contents (opChanges reached op)).take
              (count - ((contentsSystem reached.bucketSize.toNat).log
                before changes).length)).map Record.frame := by
      rw [all, take_append, take_of_length_le (by simpa using enough), length_map,
        take_append_of_le_length (by rw [length_map]; omega), map_append, map_take]
    refine ⟨_, tail, by rw [taken], damaged, by rw [taken], ?_⟩
    rw [System.replayAll_append, replayed, bind_some]
    exact replayAll_take_op wellFormed step (by omega)

end

section
variable (env : Environment) (write : SnapshotWrite)

/-- The newest snapshot has some contents, and its log leads from there to others. -/
structure NewestState (files : IndexFiles) (last : SnapshotFile) (bucketSize : UInt64)
    (before after : Contents) (records : List Record) (tail : Bytes) : Prop where
  newest : files.snapshots.getLast? = some last
  newestId : ∀ file ∈ files.snapshots, file.id ≤ last.id
  snapshot : last = snapshotOf env bucketSize last.id before
  sound : Sound bucketSize.toNat before
  log : (files.wals (last.id + 1)).getD [] = walLog env.xxh32 (records.map Record.frame) ++ tail
  replayed : (contentsSystem bucketSize.toNat).replayAll before records = some after

/-- What recovery from the newest snapshot file gives. -/
structure RecoveredFrom (files : IndexFiles) (last : SnapshotFile) (bucketSize : UInt64)
    (contents : Contents) (recovered : Index) : Prop where
  contents : recovered.contents = contents
  wellFormed : recovered.WellFormed
  idle : recovered.isRebuilding = false
  bucketSize : recovered.bucketSize = bucketSize
  currentFile : recovered.currentFile = last.id + 1
  nextId : recovered.nextId = last.id + 2
  wal : recovered.wal = last.id + 1
  log : recovered.walBytes (last.id + 1) = (files.wals (last.id + 1)).getD []
  newest : recovered.files.snapshots.getLast? = some last
  newestId : ∀ file ∈ recovered.files.snapshots, file.id ≤ last.id

theorem mem_of_mem_indexPrune (member : file ∈ (indexPrune index).files.snapshots) :
    file ∈ index.files.snapshots := by
  rcases indexPrune_cases with files | ⟨count, first, rest, _, kept, snapshots, _⟩
  · rwa [files] at member
  · rw [snapshots, ← kept] at member
    exact mem_of_mem_drop member

/-- Pruning keeps the log behind the newest snapshot. -/
theorem walBytes_indexPrune_last (newestId : ∀ file ∈ index.files.snapshots, file.id ≤ last.id) :
    (indexPrune index).walBytes (last.id + 1) = index.walBytes (last.id + 1) := by
  rcases indexPrune_cases with files | ⟨count, first, rest, fewer, kept, snapshots, wals⟩
  · rw [Index.walBytes, files, Index.walBytes]
  · have member : first ∈ index.files.snapshots :=
      mem_of_mem_drop (kept ▸ mem_cons_self)
    rw [Index.walBytes, wals _ (Nat.le_succ_of_le (newestId first member)), Index.walBytes]

theorem indexCreate_newest {files : IndexFiles} {records : List Record} {tail : Bytes}
    (state : NewestState env files last bucketSize before after records tail)
    (damaged : Damaged env.xxh32 tail) (fits : ((files.wals (last.id + 1)).getD []).length ≤
      walSizeField ((files.wals (last.id + 1)).getD []).length) :
    ∃ recovered code, indexCreate env write files configured maxSnapshots maxWals =
          some (recovered, code) ∧ RecoveredFrom files last bucketSize after recovered := by
  rcases state with ⟨newest, newestId, snapshot, sound, log, replayed⟩
  obtain ⟨older, split⟩ := List.getLast?_eq_some_iff.mp newest
  obtain ⟨stop, damaged⟩ := damaged
  have loaded := loadSnapshot_snapshotOf env sound last.id
  rw [← snapshot] at loaded
  have created := wellFormed_indexCreateFrom files bucketSize before maxSnapshots maxWals sound
  obtain ⟨replayedIndex, done, spec⟩ :=
    indexReplayWal_spec env (wellFormed_startRebuilding created) rfl (last.id + 1) log damaged fits
      (by rwa [contents_startRebuilding, contents_indexCreateFrom])
  have ended : recoverNewest env write
      (indexCreateFrom files bucketSize before maxSnapshots maxWals)
      last.id = some (indexPrune replayedIndex.stopRebuilding) := by
    rw [recoverNewest, done]
    rfl
  refine ⟨indexPrune replayedIndex.stopRebuilding, 0, ?_, ?_⟩
  · rw [indexCreate, split, reverse_append, reverse_singleton,
      singleton_append, indexCreateLoop, loaded]
    simp only [isEmpty_nil, if_true]
    rw [ended]
    rfl
  · have extends_ := spec.extends_
    have lastId : lastSnapshotId files = last.id := by rw [lastSnapshotId, newest]
    have wal : (indexCreateFrom files bucketSize before maxSnapshots
        maxWals).startRebuilding.wal = last.id + 1 := congrArg (· + 1) lastId
    have unchanged := extends_.log
    rw [wal] at unchanged
    have snapshots : replayedIndex.stopRebuilding.files.snapshots = files.snapshots :=
      extends_.snapshots
    have same := sameEntries_indexPrune replayedIndex.stopRebuilding
    refine ⟨?_, ?_, ?_, ?_, ?_, ?_, ?_, ?_, ?_, ?_⟩
    · rw [same.contents]
      exact spec.contents
    · exact wellFormed_indexPrune (⟨spec.wellFormed.refs, spec.wellFormed.sound⟩)
    · rw [indexPrune_eq]
      rfl
    · rw [indexPrune_eq]
      exact extends_.bucketSize
    · rw [indexPrune_eq]
      exact extends_.currentFile.trans (congrArg (· + 1) lastId)
    · rw [indexPrune_eq]
      exact extends_.nextId.trans (congrArg (· + 2) lastId)
    · rw [indexPrune_eq]
      exact extends_.wal.trans wal
    · rw [walBytes_indexPrune_last (by rw [snapshots]; exact newestId)]
      refine unchanged.trans ?_
      simp [Index.startRebuilding, Index.walBytes, indexCreateFrom]
    · rw [← snapshots] at newest
      rcases indexPrune_cases with files | ⟨count, first, rest, fewer, kept, pruned, _⟩
      · rw [files]
        exact newest
      · rw [pruned, ← kept, List.getLast?_drop, if_neg (by omega)]
        exact newest
    · intro file member
      refine newestId file ?_
      rw [← snapshots]
      exact mem_of_mem_indexPrune member

end

/-- Each log but the last has a record and is smaller than 2 GiB, so that it ends cleanly. -/
def PassesThrough (bytes : Nat → Bytes) : List Nat → Prop
  | [] => True
  | [id] => (bytes id).length ≤ walSizeField (bytes id).length
  | id :: rest => 0 < (bytes id).length ∧ (bytes id).length < 2 ^ 31 ∧ PassesThrough bytes rest

theorem walSizeField_of_lt (small : size < 2 ^ 31) : walSizeField size = size := by
  rw [walSizeField, Nat.mod_eq_of_lt (by omega), if_pos small]

theorem PassesThrough.fits (through : PassesThrough bytes (id :: rest)) :
    (bytes id).length ≤ walSizeField (bytes id).length := by
  cases rest with
  | nil => exact through
  | cons next rest => exact le_of_eq (walSizeField_of_lt through.2.1).symm

section
variable (env : Environment) (write : SnapshotWrite)

theorem Replayed.walBytes {env : Environment} {before after : Index} {contents : Contents}
    (replayed : Replayed env before after contents) (rebuilding : before.isRebuilding = true) :
    after.walBytes = before.walBytes := by
  funext id
  by_cases live : id = before.wal
  · have log := replayed.extends_.log
    rw [live, log, rebuilding]
    simp
  · exact replayed.extends_.others id live

theorem indexReplayWal_closed (wellFormed : index.WellFormed)
    (rebuilding : index.isRebuilding = true)
    (logs : LogsFrom env index.bucketSize (index.walBytes id) index.contents after)
    (fits : (index.walBytes id).length ≤ walSizeField (index.walBytes id).length) :
    ∃ next stop, indexReplayWal env index id = some (next, stop, false) ∧
        Replayed env index next after ∧ (0 < (index.walBytes id).length →
          (index.walBytes id).length < 2 ^ 31 → stop = .endOfLog) := by
  obtain ⟨changes, ran, log⟩ := logs
  have replayed := faithful_contentsSystem.replayAll_log wellFormed.sound ran
  rw [← append_nil (walLog _ _)] at log
  obtain ⟨next, done, spec⟩ :=
    indexReplayWal_spec env wellFormed rebuilding id log rfl fits replayed
  refine ⟨next, _, done, spec, fun positive small => if_pos ⟨?_, ?_⟩⟩
  · rintro none
    rw [log, none] at positive
    simp at positive
  · rw [walSizeField_of_lt small, log]
    simp

variable {live : Nat}

/-- The logs of later snapshots lead to the newest of them. -/
theorem replayLater_spec {lost : List SnapshotFile}
    (chain : Chain env bucketSize bytes live final id before lost) {found : List SnapshotFile}
    (ids : found.map SnapshotFile.id = lost.map SnapshotFile.id) (wellFormed : index.WellFormed)
    (through : PassesThrough index.walBytes (lost.map SnapshotFile.id))
    (rebuilding : index.isRebuilding = true) (size : index.bucketSize = bucketSize)
    (start : index.contents = before)
    (agree : ∀ other, other ≠ live → index.walBytes other = bytes other) :
    ∃ after newest, replayLater env index found false = some (after, false) ∧
        Replayed env index after newest ∧ LogsFrom env bucketSize (bytes live) newest final := by
  induction lost generalizing id before found index with
  | nil =>
    obtain rfl : found = [] := by simpa using ids
    obtain ⟨last, logs⟩ := chain
    rw [last] at logs
    exact ⟨index, before, rfl, ⟨start, wellFormed, Extends.refl index⟩, logs⟩
  | cons file rest ih =>
    cases found with
    | nil => simp at ids
    | cons file' rest' =>
      rcases chain with ⟨after, rfl, logs, chain⟩
      have id' : file'.id = id + 1 := (List.cons.inj ids).1
      have closed : id + 1 ≠ live := ne_of_lt chain.id_lt.1
      have same := agree _ closed
      rw [← size, ← start, ← same] at logs
      rcases indexReplayWal_closed env wellFormed rebuilding logs
        through.fits with ⟨next, stop, done, spec, clean⟩
      have bytes' := spec.walBytes rebuilding
      have tail := (List.cons.inj ids).2
      rw [replayLater, id', done, bind_some]
      cases rest with
      | nil =>
        obtain rfl : rest' = [] := by simpa using tail
        refine ⟨next, after, ?_, spec, ?_⟩
        · simp [replayLater]
        · rw [← chain.1]
          exact chain.2
      | cons second rest =>
        rcases ih chain tail spec.wellFormed (by rw [bytes']; exact through.2.2)
          (spec.extends_.isRebuilding.trans rebuilding)
          (spec.extends_.bucketSize.trans size) spec.contents (by rw [bytes']; exact agree) with
          ⟨last, newest, replayed, later, live⟩
        refine ⟨last, newest, ?_, ?_, live⟩
        · rw [if_pos (clean through.1 through.2.1)]
          exact replayed
        · exact { later with extends_ := spec.extends_.trans later.extends_ }

/-- Recovery passes over unreadable files and collects them. -/
theorem indexCreateLoop_unreadable (files : IndexFiles) (maxSnapshots maxWals : Nat)
    (unreadable : ∀ file ∈ passed, Unreadable env file) (older later : List SnapshotFile)
    (code : Int) :
    ∃ code', indexCreateLoop env write files maxSnapshots maxWals (passed ++ older) later code =
        indexCreateLoop env write files maxSnapshots maxWals older
          (passed.reverse ++ later) code' := by
  induction passed generalizing later code with
  | nil => exact ⟨code, rfl⟩
  | cons file rest ih =>
    rcases unreadable file mem_cons_self with ⟨error, rejected⟩
    rcases ih (fun other member =>
        unreadable other (mem_cons_of_mem _ member))
      (file :: later) (error.getD code) with ⟨code', passed⟩
    refine ⟨code', ?_⟩
    rw [cons_append, indexCreateLoop, rejected, reverse_cons, append_assoc, singleton_append]
    exact passed

theorem History.split (history : History env bucketSize bytes live final (older ++ file :: newer)) :
    ∃ contents, file = snapshotOf env bucketSize file.id contents ∧
        Sound bucketSize.toNat contents ∧
        Chain env bucketSize bytes live final file.id contents newer := by
  have dropped := history.drop (show older.length < (older ++ file :: newer).length by simp)
  rw [drop_left] at dropped
  exact dropped

theorem indexCreate_older (present : files.snapshots = older ++ last :: found)
    (nonempty : found ≠ []) (unreadable : ∀ file ∈ found, Unreadable env file)
    (ids : found.map SnapshotFile.id = lost.map SnapshotFile.id)
    (snapshot : last = snapshotOf env bucketSize last.id before)
    (sound : Sound bucketSize.toNat before)
    (chain : Chain env bucketSize bytes live final last.id before lost)
    (through : PassesThrough (fun id => (files.wals id).getD []) (lost.map SnapshotFile.id))
    (closed : ∀ id ≠ live, (files.wals id).getD [] = bytes id) (configured : UInt64)
    (maxSnapshots maxWals : Nat) :
    ∃ recovered code, indexCreate env write files configured maxSnapshots maxWals =
          some (recovered, code) ∧ Sound bucketSize.toNat recovered.contents ∧
        LogsFrom env bucketSize (bytes live) recovered.contents final := by
  have loaded := loadSnapshot_snapshotOf env sound last.id
  rw [← snapshot] at loaded
  have created := wellFormed_indexCreateFrom files bucketSize before maxSnapshots maxWals sound
  rcases replayLater_spec env chain ids (wellFormed_startRebuilding created) through rfl rfl
    (contents_indexCreateFrom files bucketSize before maxSnapshots maxWals)
    closed with ⟨after, newest, replayed, spec, logs⟩
  rcases indexCreateLoop_unreadable env write files maxSnapshots maxWals
    (fun file member => unreadable file (mem_reverse.mp member))
    (last :: older.reverse) [] 0 with ⟨code, passed⟩
  have recovered : ∃ index, recoverOlder env write
            (indexCreateFrom files bucketSize before maxSnapshots maxWals)
            last.id found = some index ∧ index.contents = newest := by
    rw [recoverOlder, replayed]
    exact ⟨_, rfl, (sameEntries_indexPrune _).contents.trans spec.contents⟩
  rcases recovered with ⟨index, recovered, contents⟩
  have sound' := spec.wellFormed.sound
  rw [spec.extends_.bucketSize, spec.contents] at sound'
  refine ⟨index, code, ?_, by rwa [contents], by rwa [contents]⟩
  rw [indexCreate, present, reverse_append, reverse_cons,
    append_assoc, singleton_append, passed, indexCreateLoop, loaded]
  simp only [reverse_reverse, append_nil, List.isEmpty_iff, if_neg nonempty, recovered]
  rfl

end

/--
The newest snapshot is readable; or the live log is empty, and the replay passes through the logs
of unreadable snapshots; or nothing has been stored.
-/
inductive Recoverable (live : Index) (files : IndexFiles) (intact : Nat) :
    List SnapshotFile → List SnapshotFile → Prop where
  | newest {kept : List SnapshotFile} (nonempty : kept ≠ [])
      (fits : ((files.wals live.wal).getD []).length ≤
        walSizeField ((files.wals live.wal).getD []).length) :
      Recoverable live files intact kept []
  | older {kept lost : List SnapshotFile} (nonempty : kept ≠ [])
      (damaged : lost ≠ []) (none : intact = 0)
      (through : PassesThrough (fun id => (files.wals id).getD []) (lost.map SnapshotFile.id)) :
      Recoverable live files intact kept lost
  | nothing (none : intact = 0) : Recoverable live files intact [] []

/-- An empty log records no change. -/
theorem LogsFrom.eq_of_nil (logs : LogsFrom env bucketSize [] before after)
    (sound : Sound bucketSize.toNat before) : before = after := by
  rcases logs with ⟨changes, ran, log⟩
  have replayed := faithful_contentsSystem.replayAll_log sound ran
  have none := length_le_length_walLog env.xxh32
    (((contentsSystem bucketSize.toNat).log before changes).map Record.frame)
  rw [← log, length_map, length_nil] at none
  rw [length_eq_zero_iff.mp (Nat.le_zero.mp none)] at replayed
  exact Option.some.inj replayed

section
variable {env : Environment} (write : SnapshotWrite) {reached live : Index} {ops : List IndexOp}
  {files : IndexFiles} {kept lost found : List SnapshotFile} {intact : Nat}
  (configured : UInt64) (maxSnapshots maxWals : Nat)

section
variable (chronicle : Chronicle env reached)
include chronicle

/-- A live log without complete records is not used by the last state. -/
theorem LastComplete.walBytes_eq_nil (last : LastComplete env reached live ops 0) :
    reached.walBytes reached.wal = [] := by
  rcases performs_indexOperateAll chronicle.wellFormed chronicle.idle
    last.ran with ⟨changes, performed⟩
  have covered := last.complete
  rw [performed.extends_.wal] at covered
  exact length_eq_zero_iff.mp (Nat.le_zero.mp covered)

theorem LastComplete.history (last : LastComplete env reached live ops intact) :
    live.wal = reached.wal ∧ (∀ id ≠ reached.wal, live.walBytes id = reached.walBytes id) ∧
      History env reached.bucketSize reached.walBytes reached.wal
        reached.contents live.files.snapshots := by
  rcases performs_indexOperateAll chronicle.wellFormed chronicle.idle
    last.ran with ⟨changes, performed⟩
  have extends_ := performed.extends_
  refine ⟨extends_.wal, extends_.others, ?_⟩
  rw [extends_.snapshots]
  exact chronicle.history

/-- What a crash leaves if the newest snapshot stays readable. -/
theorem newestState_of_crash (last : LastComplete env reached live ops intact)
    (crash : CrashFiles env live files (older ++ [file]) [] [] intact) :
    file.id + 1 = live.wal ∧ ∃ before records tail,
        NewestState env files file reached.bucketSize before reached.contents records tail ∧
          Damaged env.xxh32 tail ∧ intact =
            (walLog env.xxh32 (records.map Record.frame)).length := by
  rcases last.history chronicle with ⟨wal, _, history⟩
  have present := crash.before
  have same := crash.after
  rw [append_nil] at present same
  rw [present] at history
  have below := history.id_lt
  rcases history.split with ⟨before, snapshot, sound, next, changes, ran, log⟩
  rw [next] at log
  rcases records_left chronicle.wellFormed chronicle.idle last crash.cut
    sound ran log with ⟨records, tail, left, damaged, size, replayed⟩
  rw [wal, ← next] at left
  refine ⟨next.trans wal.symm, before, records, tail,
    ⟨?_, ?_, snapshot, sound, left, replayed⟩, damaged, ?_⟩
  · rw [same, List.getLast?_concat]
  · intro other member
    rw [same] at member
    have less := below other member
    exact Nat.le_of_lt_succ (by rwa [← next] at less)
  · rw [size, length_nil, zero_add]

theorem recovers_older (last : LastComplete env reached live ops 0)
    (crash : CrashFiles env live files kept lost found 0)
    (nonempty : kept ≠ []) (damaged : lost ≠ [])
    (through : PassesThrough (fun id => (files.wals id).getD []) (lost.map SnapshotFile.id)) :
    ∃ recovered code, indexCreate env write files configured maxSnapshots maxWals =
          some (recovered, code) ∧ recovered.contents = reached.contents := by
  rcases last.history chronicle with ⟨wal, others, history⟩
  rcases eq_nil_or_concat kept with rfl | ⟨older, file, rfl⟩
  · exact absurd rfl nonempty
  rw [crash.before, concat_eq_append, append_assoc, singleton_append] at history
  rcases history.split with ⟨before, snapshot, sound, chain⟩
  have present := crash.after
  rw [concat_eq_append, append_assoc, singleton_append] at present
  have foundSome : found ≠ [] := by
    rintro rfl
    have none := crash.ids
    rw [map_nil, eq_comm, map_eq_nil_iff] at none
    exact damaged none
  have closed : ∀ id ≠ reached.wal, (files.wals id).getD [] = reached.walBytes id := by
    intro id different
    rw [crash.closed id (by rwa [wal])]
    exact others id different
  rcases indexCreate_older env write present foundSome crash.unreadable
    crash.ids snapshot sound chain through closed configured maxSnapshots
    maxWals with ⟨recovered, code, created, sound', logs⟩
  rw [last.walBytes_eq_nil chronicle] at logs
  exact ⟨recovered, code, created, logs.eq_of_nil sound'⟩

theorem recovers_nothing
    (last : LastComplete env reached live ops 0) (crash : CrashFiles env live files [] [] found 0) :
    ∃ recovered code, indexCreate env write files configured maxSnapshots maxWals =
          some (recovered, code) ∧ recovered.contents = reached.contents := by
  rcases last.history chronicle with ⟨wal, _, history⟩
  rw [crash.before] at history
  rcases history with ⟨next, logs⟩
  rw [next, last.walBytes_eq_nil chronicle] at logs
  obtain rfl : found = [] := map_eq_nil_iff.mp crash.ids
  refine ⟨indexNewEmpty files configured maxSnapshots maxWals, 0, ?_, ?_⟩
  · rw [indexCreate, crash.after]
    rfl
  · exact logs.eq_of_nil (sound_empty _)

end

end

/-- Recovery gives the map of the last state whose operations are complete on disk. -/
theorem indexCreate_recovers_lastComplete (env : Environment) (write : SnapshotWrite)
    {bucketSize : UInt64} {maxSnapshots maxWals : Nat}
    {steps : List IndexStep} {reached live : Index} {ops : List IndexOp}
    {files : IndexFiles} {kept lost found : List SnapshotFile} {intact : Nat}
    (ran : indexRun env (freshIndex bucketSize maxSnapshots maxWals) steps = some reached)
    (complete : CompleteRollovers steps) (last : LastComplete env reached live ops intact)
    (crash : CrashFiles env live files kept lost found intact)
    (recoverable : Recoverable live files intact kept lost)
    (configured : UInt64) (newMaxSnapshots newMaxWals : Nat) :
    ∃ recovered code, indexCreate env write files configured newMaxSnapshots newMaxWals =
          some (recovered, code) ∧ ∀ hash, recovered.entryOf hash = reached.entryOf hash := by
  have chronicle := chronicle_indexRun
    (chronicle_freshIndex env bucketSize maxSnapshots maxWals) complete ran
  suffices contents : ∃ recovered code,
      indexCreate env write files configured newMaxSnapshots newMaxWals = some (recovered, code) ∧
        recovered.contents = reached.contents by
    rcases contents with ⟨recovered, code, created, same⟩
    refine ⟨recovered, code, created, fun hash => ?_⟩
    rw [entryOf_eq_lookup, entryOf_eq_lookup, same]
  cases recoverable with
  | newest nonempty fits =>
    obtain rfl : found = [] := map_eq_nil_iff.mp crash.ids
    rcases eq_nil_or_concat kept with rfl | ⟨older, file, rfl⟩
    · exact absurd rfl nonempty
    rw [concat_eq_append] at crash
    rcases newestState_of_crash chronicle last crash with
      ⟨next, before, records, tail, state, damaged, _⟩
    rw [← next] at fits
    rcases indexCreate_newest env write state damaged fits with ⟨recovered, code, created, spec⟩
    exact ⟨recovered, code, created, spec.contents⟩
  | older nonempty damaged none through =>
    subst none
    exact recovers_older write configured newMaxSnapshots newMaxWals
      chronicle last crash nonempty damaged through
  | nothing none =>
    subst none
    exact recovers_nothing write configured newMaxSnapshots newMaxWals chronicle last crash

/-- An index that has stored one entry and rolled over once. -/
def savedIndex : Index :=
  (indexRun referenceEnvironment (freshIndex 25 3 3) [.operate (.add (indexEntryCreate zeroHash)),
      .rollover .complete]).getD (freshIndex 25 3 3)

def savedIndexHit : Index :=
  (indexOperate referenceEnvironment savedIndex (.get zeroHash)).getD savedIndex

/-- The files of the saved index with one byte of the record of a hit. -/
def tornFiles : IndexFiles where
  snapshots := savedIndex.files.snapshots
  wals := Function.update savedIndexHit.files.wals 2 (some [105])

theorem indexRun_savedIndex :
    indexRun referenceEnvironment (freshIndex 25 3 3)
      [.operate (.add (indexEntryCreate zeroHash)), .rollover .complete] = some savedIndex := rfl

theorem completeRollovers_savedIndex :
    CompleteRollovers [.operate (.add (indexEntryCreate zeroHash)), .rollover .complete] := by
  intro write member
  simpa using member

theorem walBytes_savedIndexHit :
    savedIndexHit.walBytes 2 = [] ++ walLog referenceEnvironment.xxh32
      [(Record.increment (indexEntryCreate zeroHash)).frame] := by
  decide +kernel

theorem lastComplete_savedIndexHit :
    LastComplete referenceEnvironment savedIndex savedIndexHit [.get zeroHash] 0 := by
  refine ⟨rfl, le_refl 0, ?_⟩
  intro op rest next equal stepped
  obtain ⟨rfl, rfl⟩ := List.cons.inj equal
  have operated : indexOperate referenceEnvironment savedIndex
      (.get zeroHash) = some savedIndexHit := rfl
  obtain rfl := Option.some.inj (operated.symm.trans stepped)
  change 0 < (savedIndexHit.walBytes 2).length
  rw [walBytes_savedIndexHit]
  simp [walRecord]

theorem crashFiles_tornFiles :
    CrashFiles referenceEnvironment savedIndexHit tornFiles savedIndex.files.snapshots [] [] 0 := by
  refine ⟨rfl, (append_nil _).symm, rfl, by simp, ?_, ?_⟩
  · intro id different
    exact Function.update_of_ne different _ _
  · refine ⟨_, [105], 0, ?_, walBytes_savedIndexHit, rfl, ⟨.shortCrc, by decide⟩, rfl⟩
    intro frame member
    obtain rfl := mem_singleton.mp member
    exact sized_frame _

/-- A torn record of a hit leaves the saved entry. -/
theorem torn_hit_leaves_saved_entry :
    ∃ recovered code, indexCreate referenceEnvironment .complete tornFiles 25 3 3 =
          some (recovered, code) ∧ ∀ hash, recovered.entryOf hash = savedIndex.entryOf hash :=
  indexCreate_recovers_lastComplete referenceEnvironment .complete
    indexRun_savedIndex completeRollovers_savedIndex lastComplete_savedIndexHit crashFiles_tornFiles
    (.newest (by decide) (by decide)) 25 3 3

/-- An index that has stored one entry and never rolled over. -/
def unsavedIndex : Index :=
  (indexRun referenceEnvironment (freshIndex 25 3 3)
    [.operate (.add (indexEntryCreate zeroHash))]).getD (freshIndex 25 3 3)

/-- Without a snapshot a complete record of an addition is not recovered. -/
theorem unsaved_entry_is_lost :
    indexRun referenceEnvironment (freshIndex 25 3 3)
        [.operate (.add (indexEntryCreate zeroHash))] = some unsavedIndex ∧
      LastComplete referenceEnvironment unsavedIndex unsavedIndex []
        (unsavedIndex.walBytes 1).length ∧
      CrashFiles referenceEnvironment unsavedIndex unsavedIndex.files
        [] [] [] (unsavedIndex.walBytes 1).length ∧
      ∃ recovered, indexCreate referenceEnvironment .complete unsavedIndex.files 25 3 3 =
            some (recovered, 0) ∧ recovered.entryOf zeroHash = none ∧
          unsavedIndex.entryOf zeroHash = some (indexEntryCreate zeroHash) := by
  have log : unsavedIndex.walBytes 1 = [] ++ walLog referenceEnvironment.xxh32
        [(Record.addition (indexEntryCreate zeroHash)).frame] := by
    decide +kernel
  refine ⟨rfl, ⟨rfl, le_refl _, ?_⟩, ⟨rfl, rfl, rfl, by simp, fun _ _ => rfl, ?_⟩, _, rfl, rfl, rfl⟩
  · intro op rest next impossible
    cases impossible
  · refine ⟨_, [], 1, ?_, log, ?_, ⟨.shortType, rfl⟩, ?_⟩
    · intro frame member
      obtain rfl := mem_singleton.mp member
      exact sized_frame _
    · exact log
    · rw [log]
      simp

end Liboffs.BlockCache
