import Liboffs.BlockCache.IndexReplay

/-!
# What a snapshot gives back

A snapshot of an index is decoded to the bucket size, the entries and the
checksum of the index.  The ranks are not in the snapshot but are made again
from the entries.  A file that is not a snapshot is decoded as if it were
one, before its checksum is compared.
-/

namespace Liboffs.BlockCache

open Library.Cbor List

/-- The entries in a rank. -/
def Index.rankSet (index : Index) (fib : UInt32) : Set IndexEntry :=
  {entry | ∃ ref ∈ index.ranks fib, index.entries ref = entry}

/-- An index has what the index had of which a snapshot was made. -/
structure Restores (env : Environment) (index restored : Index) : Prop where
  bucketSize : restored.bucketSize = index.bucketSize
  entryOf : restored.entryOf = index.entryOf
  rankSet : restored.rankSet = index.rankSet
  crc : indexToCrc env false restored.contents = indexToCrc env false index.contents

theorem rankSet_indexCreateFrom (files : IndexFiles) (bucketSize : UInt64) (root : Contents)
    (maxSnapshots maxWals : Nat) (fib : UInt32) :
    (indexCreateFrom files bucketSize root maxSnapshots maxWals).rankSet fib =
      {entry | entry ∈ root.toList ∧ entry.counter.fib = fib} := by
  have place (ref : Nat) (inside : ref < root.toList.length) :
      root.toList.getD ref unusedEntry = root.toList[ref] := by
    simp [inside]
  ext entry
  simp only [Index.rankSet, indexCreateFrom, mem_filter, mem_range, decide_eq_true_eq,
    Set.mem_ofPred_eq]
  constructor
  · rintro ⟨ref, ⟨inside, rank⟩, rfl⟩
    rw [place ref inside] at rank ⊢
    exact ⟨getElem_mem inside, rank⟩
  · rintro ⟨member, rank⟩
    obtain ⟨ref, inside, rfl⟩ := getElem_of_mem member
    exact ⟨ref, ⟨inside, (place ref inside).symm ▸ rank⟩, place ref inside⟩

section
variable (env : Environment) (index : Index) (files : IndexFiles) (maxSnapshots maxWals : Nat)

theorem restores_indexCreateFrom_iff :
    Restores env index
        (indexCreateFrom files index.bucketSize index.contents maxSnapshots maxWals) ↔
      ∀ fib, index.rankSet fib =
        {entry | entry ∈ index.contents.toList ∧ entry.counter.fib = fib} := by
  constructor
  · intro restores fib
    rw [← restores.rankSet, rankSet_indexCreateFrom]
  · intro ranked
    refine ⟨rfl, ?_, ?_, by rw [contents_indexCreateFrom]⟩
    · funext hash
      simp only [Index.entryOf, ← lookup_contents, contents_indexCreateFrom]
    · funext fib
      rw [rankSet_indexCreateFrom, ranked]

/-- The snapshot of the index is decoded, and what it gives restores the index. -/
def RoundTrips : Prop :=
  ∃ items bucketSize root, indexToCbor index = .array items ∧
    cborToIndex items = .value (bucketSize, root) ∧
    Restores env index (indexCreateFrom files bucketSize root maxSnapshots maxWals)

theorem roundTrips_iff_restores :
    RoundTrips env index files maxSnapshots maxWals ↔ Restores env index
      (indexCreateFrom files index.bucketSize index.contents maxSnapshots maxWals) := by
  have decoded : cborToIndex [indexNodeToCbor index.contents, .uint64 index.bucketSize] =
      .value (index.bucketSize, index.contents) := by
    simp only [cborToIndex, cborGetAnyInt, cborGetInt, cborToIndexNode_indexNodeToCbor]
  constructor
  · rintro ⟨items, bucketSize, root, encoded, given, restores⟩
    cases encoded
    cases decoded.symm.trans given
    exact restores
  · exact fun restores => ⟨_, _, _, rfl, decoded, restores⟩

/-- A snapshot restores its index exactly if each rank has the entries of that rank. -/
theorem snapshot_round_trips_iff :
    RoundTrips env index files maxSnapshots maxWals ↔ ∀ fib, index.rankSet fib =
      {entry | entry ∈ index.contents.toList ∧ entry.counter.fib = fib} :=
  (roundTrips_iff_restores env index files maxSnapshots maxWals).trans
    (restores_indexCreateFrom_iff env index files maxSnapshots maxWals)

end

/-- A raised entry is still in the rank that it had before. -/
theorem raised_entry_changes_rank :
    ¬ RoundTrips referenceEnvironment (raiseEntryFib singleEntryIndex 0 5) .empty 3 3 := by
  rw [roundTrips_iff_restores, restores_indexCreateFrom_iff]
  intro ranked
  have raised : (raiseEntryFib singleEntryIndex 0 5).entries 0 ∈
      (raiseEntryFib singleEntryIndex 0 5).rankSet 0 :=
    ⟨0, by decide, rfl⟩
  rw [ranked] at raised
  exact absurd raised.2 (by decide)

/-- An entry whose counter is not three numbers of 32 bits. -/
inductive BadCounter : Item → Prop
  | mk {counter : List Item} {bytes : Library.ByteOrder.Bytes} {first second third : Item}
      {more : List Item}
      (hash : bytes.length = 32)
      (numbers : ∀ item ∈ [first, second, third], (cborGetInt item).isSome)
      (short : ∀ fib count threshold rest,
        counter ≠ .uint32 fib :: .uint32 count :: .uint32 threshold :: rest) :
      BadCounter (.array (.array counter :: .bytestring bytes :: first :: second :: third :: more))

/-- A bucket in which a bad counter stands behind entries that are read. -/
inductive BadBucket : List Item → Prop
  | here {item : Item} {rest : List Item} (bad : BadCounter item) : BadBucket (item :: rest)
  | later {item : Item} {rest : List Item} {entry : IndexEntry}
      (read : cborToIndexEntry item = .value entry) (bad : BadBucket rest) :
      BadBucket (item :: rest)

/-- An item that `cbor_to_index_node` misreads, before the first that it refuses. -/
inductive Misfit : Item → Prop
  | node {item : Item} (other : ∀ items, item ≠ .array items) : Misfit item
  | leaf {item : Item} (other : ∀ items, item ≠ .array items) : Misfit (.array [item])
  | bucket {items : List Item} (bad : BadBucket items) : Misfit (.array [.array items])
  | left {left right : Item} (misfit : Misfit left) : Misfit (.array [left, right])
  | right {left right : Item} {contents : Contents}
      (read : cborToIndexNode left = .value contents) (misfit : Misfit right) :
      Misfit (.array [left, right])

theorem cborToIndexEntry_eq_fault_iff (item : Item) :
    cborToIndexEntry item = .fault ↔ BadCounter item := by
  constructor
  · intro fault
    unfold cborToIndexEntry at fault
    split at fault
    · split at fault
      · split at fault
        · split at fault
          · cases fault
          · rename_i size _ _ _ _ _ _ first second third _ other
            refine ⟨size, by simp [first, second, third], ?_⟩
            rintro fib count threshold rest rfl
            exact other _ rfl
        · cases fault
      · cases fault
    · cases fault
  · rintro ⟨hash, numbers, short⟩
    simp only [mem_cons, forall_eq_or_imp, not_mem_nil, Option.isSome_iff_exists] at numbers
    obtain ⟨⟨_, first⟩, ⟨_, second⟩, ⟨_, third⟩, _⟩ := numbers
    simp only [cborToIndexEntry, hash, dite_true, first, second, third]
    split
    · rename_i counter value
      unfold cborToFibonacciHitCounter at value
      split at value
      · rename_i first second third rest
        cases first <;> cases second <;> cases third <;> cases value
        exact absurd rfl (short _ _ _ _)
      · cases value
    · rfl

theorem cborToBucket_eq_fault_iff : cborToBucket items = .fault ↔ BadBucket items := by
  induction items with
  | nil => exact iff_of_false nofun nofun
  | cons item rest ih =>
    have bad := cborToIndexEntry_eq_fault_iff item
    simp only [cborToBucket]
    constructor
    · intro fault
      split at fault
      · rename_i entry read
        refine .later read (ih.mp ?_)
        split at fault <;> simp_all
      · cases fault
      · rename_i read
        exact .here (bad.mp read)
    · rintro (here | ⟨read, later⟩)
      · rw [bad.mpr here]
      · rw [read, ih.mpr later]

theorem cborToIndexNode_eq_fault_iff : cborToIndexNode item = .fault ↔ Misfit item := by
  constructor
  · fun_induction cborToIndexNode item with
    | case1 | case2 | case4 | case6 | case7 | case10 => nofun
    | case3 _ _ _ leftRead rightRead _ rightIH =>
      exact fun _ => .right leftRead (rightIH rightRead)
    | case5 _ _ leftRead leftIH => exact fun _ => .left (leftIH leftRead)
    | case8 items read => exact fun _ => .bucket (cborToBucket_eq_fault_iff.mp read)
    | case9 item other => exact fun _ => .leaf other
    | case11 item _ _ _ other => exact fun _ => .node other
  · intro misfit
    induction misfit with
    | @node item other =>
      cases item with
      | array items => exact absurd rfl (other items)
      | _ => rfl
    | @leaf item other =>
      cases item with
      | array items => exact absurd rfl (other items)
      | _ => rfl
    | bucket bad => rw [cborToIndexNode, cborToBucket_eq_fault_iff.mpr bad]
    | left misfit ih => rw [cborToIndexNode, ih]
    | right read misfit ih => rw [cborToIndexNode, read, ih]

/-- The items of a snapshot have the shape that the decoder takes for granted. -/
def Shaped (items : List Item) : Prop :=
  ∃ root bucketSize rest, items = root :: bucketSize :: rest ∧
    (cborGetAnyInt bucketSize).isSome ∧ ¬ Misfit root

theorem cborToIndex_ne_fault_iff (items : List Item) :
    cborToIndex items ≠ .fault ↔ Shaped items := by
  constructor
  · intro safe
    unfold cborToIndex at safe
    split at safe
    · rename_i root bucketSize rest
      split at safe
      · rename_i size given
        refine ⟨root, bucketSize, rest, rfl, by simp [given], fun misfit => safe ?_⟩
        rw [cborToIndexNode_eq_fault_iff.mpr misfit]
      · exact absurd rfl safe
    · exact absurd rfl safe
  · rintro ⟨root, bucketSize, rest, rfl, number, fits⟩
    rw [← cborToIndexNode_eq_fault_iff] at fits
    obtain ⟨size, given⟩ := Option.isSome_iff_exists.mp number
    simp only [cborToIndex, given]
    split <;> simp_all

/-- The load of a snapshot ends exactly if its array, should it have one, has the right shape. -/
theorem loadSnapshot_is_safe_iff (env : Environment) (file : SnapshotFile) :
    loadSnapshot env file ≠ .fault ↔ (file.crc.isSome →
      ∀ items, env.cborLoad file.content = some (.array items) → Shaped items) := by
  cases named : file.crc with
  | none => simp [loadSnapshot, named]
  | some crc =>
    cases read : env.cborLoad file.content with
    | none => simp [loadSnapshot, named, read]
    | some item =>
      cases item with
      | array items =>
        have decoded := cborToIndex_ne_fault_iff items
        simp only [loadSnapshot, named, read]
        split <;> simp_all
        split <;> simp
      | _ => simp [loadSnapshot, named, read]

/-- An empty array is read behind its end. -/
theorem empty_array_is_read_behind_its_end :
    loadSnapshot referenceEnvironment ⟨1, some 0, [0x80]⟩ = .fault := by
  rfl

end Liboffs.BlockCache
