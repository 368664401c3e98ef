import Liboffs.BlockCache.IndexReplay
import Liboffs.Library.Runs

/-!
# Runs of the index and the files they leave

A run performs index operations and rollovers.  The files of a state that a
run reaches tell its history: each snapshot file holds the contents at the
time of a rollover, and the log with the next identifier records the
operations from there to the next snapshot, or to the present.
-/

namespace Liboffs.BlockCache

open List Option

open Library.ByteOrder Library.BucketTrie Library.LoggedSystem Library.FileSlots
open Library.Runs

/-- An operation of the index interface on the entry of a hash. -/
inductive IndexOp where
  | add (entry : IndexEntry)
  | get (hash : Hash)
  | setEjection (hash : Hash) (date : UInt64)
  | setMetadata (hash : Hash) (ephemeralCount : UInt16) (pinCount : UInt32)
  | remove (hash : Hash)

/-- The mutation that an operation performs; without an entry there is none. -/
def IndexOp.mutation (index : Index) : IndexOp → Option Mutation
  | .add entry => some (.add entry)
  | .get hash => (indexFind index hash).map .increment
  | .setEjection hash date => (indexFind index hash).map (.setEjection · date)
  | .setMetadata hash ephemeralCount pinCount =>
    (indexFind index hash).map (.setMetadata · ephemeralCount pinCount)
  | .remove hash => some (.remove hash)

/-- The effect of an operation. -/
def indexOperate (env : Environment) (index : Index) (op : IndexOp) : Option Index :=
  match op.mutation index with
  | some mutation => mutate env index mutation
  | none => some index

/-- The effect of a sequence of operations. -/
def indexOperateAll (env : Environment) : Index → List IndexOp → Option Index
  | index, [] => some index
  | index, op :: rest => (indexOperate env index op).bind fun next => indexOperateAll env next rest

/-- A step of a run: an operation or a rollover. -/
inductive IndexStep where
  | operate (op : IndexOp)
  | rollover (write : FileWrite)

/-- The effect of a step. -/
def indexStep (env : Environment) (index : Index) : IndexStep → Option Index
  | .operate op => indexOperate env index op
  | .rollover write => (snapshotWrite write).map fun write => indexDebounce env write index

/-- The effect of a run. -/
def indexRun (env : Environment) : Index → List IndexStep → Option Index
  | index, [] => some index
  | index, step :: rest => (indexStep env index step).bind fun next => indexRun env next rest

/-- Every rollover of the run writes its snapshot completely. -/
def CompleteRollovers (steps : List IndexStep) : Prop :=
  ∀ write, .rollover write ∈ steps → write = .complete

/-- The operation of the logged map that an index operation performs. -/
def opChanges (index : Index) (op : IndexOp) : List Change :=
  match op.mutation index with
  | some mutation => mutationChanges index mutation
  | none => []

variable {index next : Index} {changes : List Change} {op : IndexOp}

/-- An index operation changes the object that the index holds. -/
theorem recorded_mutation (wellFormed : index.WellFormed) {mutation : Mutation}
    (equal : op.mutation index = some mutation) : Recorded index mutation := by
  cases op with
  | add | remove =>
    cases equal
    trivial
  | get | setEjection | setMetadata =>
    obtain ⟨ref, found, rfl⟩ := map_eq_some_iff.mp equal
    exact current_of_indexFind wellFormed found

theorem performs_indexOperate (wellFormed : index.WellFormed) (idle : index.isRebuilding = false)
    (operated : indexOperate env index op = some next) :
    Performs env index next (opChanges index op) := by
  unfold indexOperate at operated
  unfold opChanges
  cases equal : op.mutation index with
  | some mutation =>
    rw [equal] at operated
    exact performs_mutate env wellFormed idle (recorded_mutation wellFormed equal) operated
  | none =>
    rw [equal] at operated
    cases operated
    exact performs_nil env wellFormed

theorem performs_indexOperateAll (wellFormed : index.WellFormed) (idle : index.isRebuilding = false)
    (operated : indexOperateAll env index ops = some next) :
    ∃ changes, Performs env index next changes := by
  induction ops generalizing index with
  | nil =>
    cases operated
    exact ⟨[], performs_nil env wellFormed⟩
  | cons op rest ih =>
    obtain ⟨middle, first, operated⟩ := bind_eq_some_iff.mp operated
    have step := performs_indexOperate wellFormed idle first
    obtain ⟨changes, steps⟩ := ih step.wellFormed (step.extends_.isRebuilding.trans idle) operated
    exact ⟨_, step.trans steps⟩

/-- The bytes are the log of operations between two contents. -/
def LogsFrom (env : Environment) (bucketSize : UInt64) (bytes : Bytes)
    (before after : Contents) : Prop :=
  ∃ changes,
    (contentsSystem bucketSize.toNat).run before changes = some after ∧ bytes = walLog env.xxh32
        (((contentsSystem bucketSize.toNat).log before changes).map Record.frame)

/-- The logs lead through the snapshots of a list to the contents with the live log. -/
def Chain (env : Environment) (bucketSize : UInt64) (bytes : Nat → Bytes)
    (live : Nat) (final : Contents) : Nat → Contents → List SnapshotFile → Prop
  | id, before, [] => id + 1 = live ∧ LogsFrom env bucketSize (bytes (id + 1)) before final
  | id, before, file :: rest =>
    ∃ after,
      file = snapshotOf env bucketSize (id + 1) after ∧
        LogsFrom env bucketSize (bytes (id + 1)) before after ∧
        Chain env bucketSize bytes live final (id + 1) after rest

section
variable {env : Environment} {bucketSize : UInt64} {bytes later : Nat → Bytes} {live : Nat}
  {final newFinal before : Contents} {id : Nat} {files : List SnapshotFile}

theorem LogsFrom.sound {log : Bytes} {after : Contents}
    (logs : LogsFrom env bucketSize log before after) (sound : Sound bucketSize.toNat before) :
    Sound bucketSize.toNat after := by
  obtain ⟨changes, ran, _⟩ := logs
  exact faithful_contentsSystem.run_preserved sound ran

section
variable (chain : Chain env bucketSize bytes live final id before files)
include chain

/-- The identifiers of a chain lie below the live one. -/
theorem Chain.id_lt : id < live ∧ ∀ file ∈ files, file.id < live := by
  induction files generalizing id before with
  | nil =>
    rw [← chain.1]
    exact ⟨Nat.lt_succ_self id, by simp⟩
  | cons file rest ih =>
    obtain ⟨after, rfl, _, chain⟩ := chain
    have below := ih chain
    refine ⟨lt_trans (Nat.lt_succ_self id) below.1, ?_⟩
    intro other member
    rcases mem_cons.mp member with rfl | member
    · exact below.1
    · exact below.2 other member

/-- More operations extend the last log of a chain. -/
theorem Chain.extend (others : ∀ other ≠ live, later other = bytes other)
    (ran : (contentsSystem bucketSize.toNat).run final changes = some newFinal)
    (grown : later live = bytes live ++ walLog env.xxh32
        (((contentsSystem bucketSize.toNat).log final changes).map Record.frame)) :
    Chain env bucketSize later live newFinal id before files := by
  induction files generalizing id before with
  | nil =>
    obtain ⟨last, changes', ran', log⟩ := chain
    refine ⟨last, changes' ++ changes, ?_, ?_⟩
    · rw [System.run_append, ran', bind_some, ran]
    · rw [last, grown, ← last, log, ← walLog_append, ← map_append, System.log_append ran']
  | cons file rest ih =>
    obtain ⟨after, equal, logs, chain⟩ := chain
    have different : id + 1 ≠ live := ne_of_lt chain.id_lt.1
    exact ⟨after, equal, by rwa [others _ different], ih chain⟩

/-- A rollover appends a snapshot and starts an empty log. -/
theorem Chain.rollover (empty : bytes (live + 1) = []) :
    Chain env bucketSize bytes (live + 1) final id before
      (files ++ [snapshotOf env bucketSize live final]) := by
  induction files generalizing id before with
  | nil =>
    obtain ⟨last, logs⟩ := chain
    refine ⟨final, by rw [last], logs, by rw [last], [], rfl, ?_⟩
    rw [last, empty]
    rfl
  | cons file rest ih =>
    obtain ⟨after, equal, logs, chain⟩ := chain
    exact ⟨after, equal, logs, ih chain⟩

/-- A chain depends only on the logs behind its beginning. -/
theorem Chain.congr (agree : ∀ other, id < other → later other = bytes other) :
    Chain env bucketSize later live final id before files := by
  induction files generalizing id before with
  | nil =>
    obtain ⟨last, logs⟩ := chain
    exact ⟨last, by rwa [agree _ (Nat.lt_succ_self id)]⟩
  | cons file rest ih =>
    obtain ⟨after, equal, logs, chain⟩ := chain
    exact ⟨after, equal, by rwa [agree _ (Nat.lt_succ_self id)],
      ih chain fun other less => agree other (lt_trans (Nat.lt_succ_self id) less)⟩

end

variable (env bucketSize bytes live final) in
/-- The logs lead from the first of the snapshots, or the empty index, to the present. -/
def History : List SnapshotFile → Prop
  | [] => Chain env bucketSize bytes live final 0 (.leaf []) []
  | first :: rest =>
    ∃ contents,
      first = snapshotOf env bucketSize first.id contents ∧ Sound bucketSize.toNat contents ∧
        Chain env bucketSize bytes live final first.id contents rest

/-- A chain through at least one snapshot starts a history there. -/
theorem Chain.history (chain : Chain env bucketSize bytes live final id before files)
    (sound : Sound bucketSize.toNat before) (nonempty : files ≠ []) :
    History env bucketSize bytes live final files := by
  cases files with
  | nil => exact absurd rfl nonempty
  | cons file rest =>
    obtain ⟨after, rfl, logs, chain⟩ := chain
    exact ⟨after, rfl, logs.sound sound, chain⟩

section
variable (history : History env bucketSize bytes live final files)
include history

theorem History.id_lt : ∀ file ∈ files, file.id < live := by
  cases files with
  | nil => simp
  | cons first rest =>
    obtain ⟨contents, _, _, chain⟩ := history
    intro file member
    rcases mem_cons.mp member with rfl | member
    · exact chain.id_lt.1
    · exact chain.id_lt.2 file member

theorem History.extend (others : ∀ other ≠ live, later other = bytes other)
    (ran : (contentsSystem bucketSize.toNat).run final changes = some newFinal)
    (grown : later live = bytes live ++ walLog env.xxh32
        (((contentsSystem bucketSize.toNat).log final changes).map Record.frame)) :
    History env bucketSize later live newFinal files := by
  cases files with
  | nil => exact Chain.extend history others ran grown
  | cons first rest =>
    obtain ⟨contents, equal, sound, chain⟩ := history
    exact ⟨contents, equal, sound, chain.extend others ran grown⟩

theorem History.rollover (empty : bytes (live + 1) = []) :
    History env bucketSize bytes (live + 1) final
      (files ++ [snapshotOf env bucketSize live final]) := by
  cases files with
  | nil => exact (Chain.rollover history empty).history (sound_empty _) (by simp)
  | cons first rest =>
    obtain ⟨contents, equal, sound, chain⟩ := history
    exact ⟨contents, equal, sound, chain.rollover empty⟩

/-- The history from a later snapshot on. -/
theorem History.drop {count : Nat} (fewer : count < files.length) :
    History env bucketSize bytes live final (files.drop count) := by
  induction count generalizing files with
  | zero => exact history
  | succ count ih =>
    cases files with
    | nil => simp at fewer
    | cons first rest =>
      obtain ⟨contents, _, sound, chain⟩ := history
      have enough : count < rest.length := Nat.lt_of_succ_lt_succ fewer
      have nonempty : rest ≠ [] := ne_nil_of_length_pos (Nat.zero_lt_of_lt enough)
      exact ih (chain.history sound nonempty) enough

end

theorem History.congr (history : History env bucketSize bytes live final (first :: rest))
    (agree : ∀ other, first.id < other → later other = bytes other) :
    History env bucketSize later live final (first :: rest) := by
  obtain ⟨contents, equal, sound, chain⟩ := history
  exact ⟨contents, equal, sound, chain.congr agree⟩

end

/-- The state of an index and its files after a run. -/
structure Chronicle (env : Environment) (index : Index) : Prop where
  wellFormed : index.WellFormed
  idle : index.isRebuilding = false
  currentFile : index.currentFile = index.wal
  nextId : index.nextId = index.wal + 1
  future : ∀ id, index.wal < id → index.walBytes id = []
  history : History env index.bucketSize index.walBytes index.wal
    index.contents index.files.snapshots

/-- An index created in an empty directory. -/
def freshIndex (bucketSize : UInt64) (maxSnapshots maxWals : Nat) : Index :=
  indexNewEmpty IndexFiles.empty bucketSize maxSnapshots maxWals

theorem chronicle_freshIndex (env : Environment) (bucketSize : UInt64)
    (maxSnapshots maxWals : Nat) : Chronicle env (freshIndex bucketSize maxSnapshots maxWals) where
  wellFormed := ⟨by simp [freshIndex, indexNewEmpty, Trie.toList], sound_empty _⟩
  idle := rfl
  currentFile := rfl
  nextId := rfl
  future := fun _ _ => rfl
  history := ⟨rfl, [], rfl, rfl⟩

variable {env : Environment}

variable {file : SnapshotFile}

theorem writeSnapshot_newest (older : ∀ other ∈ files, other.id < file.id) :
    writeSnapshot file files = files ++ [file] := by
  induction files with
  | nil => rfl
  | cons other rest ih =>
    have less := older other mem_cons_self
    rw [writeSnapshot, if_neg fun same => ne_of_lt less same.1,
      if_neg (Nat.not_lt_of_gt less), ih fun next member =>
        older next (mem_cons_of_mem _ member)]
    rfl

/-- Pruning keeps all files, or those from some snapshot on. -/
theorem indexPrune_cases :
    (indexPrune index).files = index.files ∨
      ∃ count first rest, count < index.files.snapshots.length ∧
        index.files.snapshots.drop count = first :: rest ∧
        (indexPrune index).files.snapshots = first :: rest ∧ ∀ id, first.id ≤ id →
          (indexPrune index).files.wals id = index.files.wals id := by
  have wals := wals_indexPrune index
  by_cases unlimited : index.maxSnapshots = 0
  · left
    simp only [indexPrune, indexPruneOldSnapshots, if_pos unlimited, indexPruneOldWals]
    split <;> simp
  · cases kept : index.files.snapshots.drop (index.files.snapshots.length - index.maxSnapshots) with
    | nil =>
      left
      have none : index.files.snapshots = [] := by
        have short := drop_eq_nil_iff.mp kept
        exact length_eq_zero_iff.mp (by omega)
      simp only [indexPrune, indexPruneOldSnapshots, if_neg unlimited, kept, indexPruneOldWals]
      split <;> simp [← none]
    | cons first rest =>
      right
      refine ⟨_, first, rest, ?_, kept, ?_, ?_⟩
      · refine Nat.lt_of_not_le fun long => ?_
        rw [drop_eq_nil_iff.mpr long] at kept
        cases kept
      · simp only [indexPrune, indexPruneOldSnapshots, if_neg unlimited, kept, indexPruneOldWals]
        split <;> rfl
      · intro id above
        rw [wals id, if_neg]
        simp only [indexPruneOldSnapshots, if_neg unlimited, kept]
        omega

section
variable (chronicle : Chronicle env index)
include chronicle

/-- Recorded mutations extend the live log of the history. -/
theorem Chronicle.performs (performed : Performs env index next changes) : Chronicle env next := by
  have extends_ := performed.extends_
  have log := extends_.log
  rw [chronicle.idle] at log
  refine ⟨performed.wellFormed, extends_.isRebuilding.trans chronicle.idle, ?_, ?_, ?_, ?_⟩
  · rw [extends_.currentFile, extends_.wal, chronicle.currentFile]
  · rw [extends_.nextId, extends_.wal, chronicle.nextId]
  · intro id less
    rw [extends_.wal] at less
    rw [extends_.others id (ne_of_gt less), chronicle.future id less]
  · rw [extends_.bucketSize, extends_.wal, extends_.snapshots]
    exact chronicle.history.extend extends_.others performed.ran log

/-- Pruning keeps the history from the first snapshot that stays. -/
theorem Chronicle.prune : Chronicle env (indexPrune index) := by
  have same := sameEntries_indexPrune index
  have unchanged := indexPrune_eq index
  have future : ∀ id, index.wal < id → (indexPrune index).walBytes id = [] := fun id less =>
    walBytes_indexPrune_of_nil index (chronicle.future id less)
  refine ⟨?_, ?_, ?_, ?_, ?_, ?_⟩
  · exact wellFormed_indexPrune chronicle.wellFormed
  · rw [unchanged]
    exact chronicle.idle
  · rw [unchanged]
    exact chronicle.currentFile
  · rw [unchanged]
    exact chronicle.nextId
  · rw [unchanged]
    rwa [unchanged] at future
  · have bytes : ∀ id, (indexPrune index).files.wals id = index.files.wals id →
          (indexPrune index).walBytes id = index.walBytes id := by
      intro id equal
      rw [Index.walBytes, equal, Index.walBytes]
    rw [same.contents,
      show (indexPrune index).bucketSize = index.bucketSize by rw [unchanged],
      show (indexPrune index).wal = index.wal by rw [unchanged]]
    rcases indexPrune_cases with files | ⟨count, first, rest, fewer, kept, snapshots, wals⟩
    · have all : (indexPrune index).walBytes = index.walBytes :=
        funext fun id => bytes id (by rw [files])
      rw [all, files]
      exact chronicle.history
    · rw [snapshots]
      have history := chronicle.history.drop fewer
      rw [kept] at history
      exact history.congr fun id less => bytes id (wals id (le_of_lt less))

/-- A complete rollover adds a snapshot to the history. -/
theorem Chronicle.rollover : Chronicle env (indexDebounce env .complete index) := by
  refine Chronicle.prune ⟨⟨chronicle.wellFormed.refs,
    chronicle.wellFormed.sound⟩, chronicle.idle, ?_, ?_, ?_, ?_⟩
  · exact chronicle.nextId
  · exact congrArg (· + 1) chronicle.nextId
  · exact fun id less => chronicle.future id (lt_trans (Nat.lt_succ_self _) less)
  · have newest : writeSnapshot (indexSnapshot env index) index.files.snapshots =
          index.files.snapshots ++ [snapshotOf env index.bucketSize index.wal index.contents] := by
      rw [← chronicle.currentFile]
      refine writeSnapshot_newest fun other member => ?_
      have less := chronicle.history.id_lt other member
      rwa [← chronicle.currentFile] at less
    rw [newest]
    exact chronicle.history.rollover (chronicle.future _ (Nat.lt_succ_self _))

theorem chronicle_indexRun (complete : CompleteRollovers steps)
    (ran : indexRun env index steps = some live) : Chronicle env live := by
  induction steps generalizing index with
  | nil =>
    cases ran
    exact chronicle
  | cons step rest ih =>
    obtain ⟨next, stepped, ran⟩ := bind_eq_some_iff.mp ran
    have later : CompleteRollovers rest := fun write member =>
      complete write (mem_cons_of_mem _ member)
    refine ih ?_ later ran
    cases step with
    | operate op =>
      exact chronicle.performs (performs_indexOperate chronicle.wellFormed chronicle.idle
          stepped)
    | rollover write =>
      obtain rfl := complete write mem_cons_self
      cases stepped
      exact chronicle.rollover

end

end Liboffs.BlockCache
