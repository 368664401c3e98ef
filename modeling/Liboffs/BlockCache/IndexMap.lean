import Liboffs.BlockCache.IndexTrace

/-!
# The index as a finite map

The calls of the index are compared with a map from hashes to objects, which
holds for every hash the object of its last addition unless it was removed
since.
-/

namespace Liboffs.BlockCache

open Option Function

open Library.BucketTrie Library.Runs

/-- The calls of the index. -/
inductive IndexCall where
  | add (entry : IndexEntry)
  | get (hash : Hash)
  | find (hash : Hash)
  | remove (hash : Hash)

/-- The index with the map that it should be. -/
structure IndexMap where
  index : Index
  live : Hash → Option EntryRef

/-- A call, without a result where it reads behind the last bit of a hash. -/
def IndexMap.call (env : Environment) (state : IndexMap) : IndexCall → Option IndexMap
  | .add entry =>
    (indexAdd env (state.index.allocEntry entry) state.index.nextRef).map fun next =>
      ⟨next, Function.update state.live entry.hash (some state.index.nextRef)⟩
  | .get hash => some { state with index := (indexGet env state.index hash).1 }
  | .find _ => some state
  | .remove hash =>
    some ⟨indexRemove env state.index hash, Function.update state.live hash none⟩

/-- A call of a run, which leads nowhere after a wrong read. -/
def indexCalls (env : Environment) (state : Option IndexMap) (call : IndexCall) :
    Option (Option IndexMap) :=
  some (state.bind (·.call env call))

/--
The lookups of the index give the objects of the map, its hashes are counted, and the trie is
well-formed.
-/
structure AsMap (bucketSize : UInt64) (state : IndexMap) : Prop where
  wellFormed : state.index.WellFormed
  bucketSize : state.index.bucketSize = bucketSize
  find : ∀ hash, indexFind state.index hash = state.live hash
  count : ∃ hashes : List Hash, hashes.Nodup ∧
    (∀ hash, hash ∈ hashes ↔ (state.live hash).isSome) ∧ indexCount state.index = hashes.length

/-- An addition is of a new hash, and no more than a bucket of hashes agree from bit 1 on. -/
def Fits (bucketSize : UInt64) (state : IndexMap) : IndexCall → Prop
  | .add entry => state.live entry.hash = none ∧
    ∀ pattern : Nat → Bool, Trie.FewKeys bucketSize.toNat fun hash =>
      (hash = entry.hash ∨ (state.live hash).isSome) ∧
        ∀ index, 0 < index → index ≤ 0 + hashBits → hash.bit index = pattern index
  | _ => True

variable {env : Environment} {bucketSize : UInt64} {state : IndexMap}

theorem asMap_of_find (wellFormed : index.WellFormed) (size : index.bucketSize = bucketSize)
    (find : ∀ hash, indexFind index hash = live hash) : AsMap bucketSize ⟨index, live⟩ := by
  refine ⟨wellFormed, size, find, index.root.toList.map index.hashOf, wellFormed.distinct,
    fun hash => ?_, (List.length_map _).symm⟩
  rw [List.mem_map, show (IndexMap.mk index live).live hash = _ from (find hash).symm,
    isSome_iff_exists]
  exact exists_congr fun ref => (indexFind_eq_some_iff wellFormed).symm

theorem call_add (called : state.call env (.add entry) = some next) :
    ∃ index, indexAdd env (state.index.allocEntry entry) state.index.nextRef = some index ∧
      ⟨index, Function.update state.live entry.hash (some state.index.nextRef)⟩ = next :=
  map_eq_some_iff.mp called

section
variable (asMap : AsMap bucketSize state)
include asMap

theorem indexAdd_isSome_iff (absent : state.live entry.hash = none) :
    (∃ next, indexAdd env (state.index.allocEntry entry) state.index.nextRef = some next) ↔
      Trie.Room Hash.bit bucketSize.toNat hashBits 0 fun hash =>
        hash = entry.hash ∨ (state.live hash).isSome := by
  constructor
  · rintro ⟨next, added⟩
    have adds := adds_indexAdd asMap.wellFormed ((asMap.find _).trans absent) (.refl _) added
    have sound := adds.wellFormed.sound
    rw [adds.bucketSize, asMap.bucketSize] at sound
    refine (Trie.room_of_within sound.within sound.low sound.routed).mono fun hash known => ?_
    have found : (indexFind next hash).isSome := by
      rw [adds.find, asMap.find]
      split
      · rfl
      · rename_i different
        exact known.resolve_left different
    obtain ⟨ref, found⟩ := isSome_iff_exists.mp found
    obtain ⟨member, equal⟩ := (indexFind_eq_some_iff adds.wellFormed).mp found
    refine ⟨next.entries ref, ?_, equal⟩
    rw [Index.contents, Trie.toList_map]
    exact List.mem_map_of_mem member
  · intro room
    have names : NamesSlots (fun hash _ => hash = entry.hash ∨ (state.live hash).isSome)
        state.index.contents := by
      intro old member
      rw [Index.contents, Trie.toList_map] at member
      obtain ⟨ref, inside, rfl⟩ := List.mem_map.mp member
      have found := (indexFind_eq_some_iff asMap.wellFormed).mpr ⟨inside, rfl⟩
      exact .inr (isSome_iff_exists.mpr ⟨ref, (asMap.find _).symm.trans found⟩)
    rw [← asMap.bucketSize] at room
    obtain ⟨_, _, inserted, _⟩ := insertEntry_names
      (room.mono fun _ known => known.elim fun _ => id) asMap.wellFormed.sound names (.inl rfl)
    refine indexAdd_isSome env _ _ (Eq.trans ?_ inserted)
    rw [contents_allocEntry asMap.wellFormed, entries_allocEntry]
    rfl

/-- An addition of a hash in the map leaves the older object there. -/
theorem absent_of_asMap_add (later : AsMap bucketSize next)
    (called : state.call env (.add entry) = some next) : state.live entry.hash = none := by
  rw [eq_none_iff_forall_ne_some]
  intro old known
  have ready := wellFormed_allocEntry asMap.wellFormed entry
  have touches := Touches.refl (state.index.allocEntry entry)
  rw [← asMap.find, indexFind_eq_some_iff asMap.wellFormed] at known
  have found : indexFind (state.index.allocEntry entry)
      ((state.index.allocEntry entry).hashOf state.index.nextRef) = some old := by
    rw [hashOf_new_of_touches touches, indexFind_eq_some_iff ready,
      hashOf_old_of_touches touches (asMap.wellFormed.refs old known.1)]
    exact known
  rw [IndexMap.call, indexAdd_of_known env ready found] at called
  cases called
  have new := (indexFind_eq_some_iff later.wellFormed).mp
    ((later.find entry.hash).trans (update_self _ _ _))
  have root : (indexVisit env (state.index.allocEntry entry) (.found old)).root =
      state.index.root := by
    simp only [indexVisit]
    split
    · rfl
    · exact (sameEntries_indexIncrement env (state.index.allocEntry entry)).root
  exact lt_irrefl _ (asMap.wellFormed.refs _ (root ▸ new.1))

theorem asMap_call_iff :
    (∃ next, state.call env call = some next ∧ AsMap bucketSize next) ↔
      Fits bucketSize state call := by
  cases call with
  | find hash => exact iff_of_true ⟨state, rfl, asMap⟩ trivial
  | get hash =>
    refine iff_of_true ⟨_, rfl, ?_⟩ trivial
    cases found : indexFind state.index hash with
    | none => simpa only [indexGet, found] using asMap
    | some ref =>
      have set : Touches state.index (state.index.setEntry ref
          (indexEntryIncrement (state.index.entries ref))) := touches_setEntry _ ref rfl rfl
      have touches := set.trans (.of_sameEntries (sameEntries_indexIncrement env state.index)
        (extends_indexIncrement env state.index).bucketSize)
      simp only [indexGet, found]
      exact asMap_of_find (touches.wellFormed asMap.wellFormed)
        (touches.bucketSize.trans asMap.bucketSize)
        fun other => (touches.indexFind other).trans (asMap.find other)
  | remove hash =>
    have removes : Removes state.index (indexRemove env state.index hash) hash :=
      removes_indexRemove asMap.wellFormed
    refine iff_of_true ⟨_, rfl, asMap_of_find removes.wellFormed
      (removes.bucketSize.trans asMap.bucketSize) fun other => ?_⟩ trivial
    rw [removes.find, asMap.find, update_apply]
  | add entry =>
    constructor
    · rintro ⟨next, called, later⟩
      have absent := absent_of_asMap_add asMap later called
      obtain ⟨index, added, rfl⟩ := call_add called
      exact ⟨absent, Trie.room_iff_few.mp ((indexAdd_isSome_iff asMap absent).mp ⟨_, added⟩)⟩
    · rintro ⟨absent, few⟩
      obtain ⟨next, added⟩ : ∃ next, indexAdd env _ _ = some next :=
        (indexAdd_isSome_iff asMap absent).mpr (Trie.room_iff_few.mpr few)
      have adds := adds_indexAdd asMap.wellFormed ((asMap.find _).trans absent) (.refl _) added
      refine ⟨_, by rw [IndexMap.call, added]; rfl, asMap_of_find adds.wellFormed
        (adds.bucketSize.trans asMap.bucketSize) fun other => ?_⟩
      rw [adds.find, asMap.find, update_apply]

variable (env) in
/-- Every call ends in the map that it should lead to exactly if every addition fits. -/
theorem index_is_a_finite_map (calls : List IndexCall) :
    Throughout (indexCalls env) (fun reached => ∃ state, reached = some state ∧
        AsMap bucketSize state) (some state) calls ↔
      EachStep (indexCalls env) (fun reached call => ∀ state, reached = some state →
        Fits bucketSize state call) (some state) calls := by
  refine throughout_iff_eachStep (fun _ _ _ _ _ => True.intro) ?_ calls trivial ⟨state, rfl, asMap⟩
  rintro _ call next - ⟨state, rfl, asMap⟩ stepped
  cases stepped
  simpa using asMap_call_iff asMap

end

theorem asMap_freshIndex : AsMap bucketSize ⟨freshIndex bucketSize 0 0, fun _ => none⟩ :=
  asMap_of_find (chronicle_freshIndex referenceEnvironment bucketSize 0 0).wellFormed rfl
    fun _ => rfl

/-- An entry for a digest whose first byte is given and whose others are zero. -/
def firstByteEntry (byte : UInt8) : IndexEntry :=
  indexEntryCreate ⟨byte :: List.replicate 31 0, rfl⟩

theorem fits_firstByteEntry :
    Fits 1 ⟨freshIndex 1 0 0, fun _ => none⟩ (.add (firstByteEntry 0)) := by
  refine ⟨rfl, fun pattern list distinct members => ?_⟩
  match list with
  | [] | [_] => simp
  | first :: second :: _ =>
    simp_all

theorem single_addition_is_found :
    Throughout (indexCalls referenceEnvironment)
      (fun reached => ∃ state, reached = some state ∧ AsMap 1 state)
      (some ⟨freshIndex 1 0 0, fun _ => none⟩) [.add (firstByteEntry 0)] := by
  refine (index_is_a_finite_map _ asMap_freshIndex _).mpr fun _ _ => ⟨?_, trivial⟩
  rintro _ ⟨⟩
  exact fits_firstByteEntry

/-- With one place in a bucket, two hashes that differ in bit 0 alone are split up to bit 256. -/
theorem twin_addition_reads_behind_the_hash :
    ∃ state, IndexMap.call referenceEnvironment ⟨freshIndex 1 0 0, fun _ => none⟩
        (.add (firstByteEntry 0)) = some state ∧
      state.call referenceEnvironment (.add (firstByteEntry 1)) = none := by
  obtain ⟨state, called, asMap⟩ := (asMap_call_iff asMap_freshIndex).mpr fits_firstByteEntry
  refine ⟨state, called, eq_none_iff_forall_ne_some.mpr fun next twin => ?_⟩
  obtain ⟨index, _, rfl⟩ := call_add called
  obtain ⟨index, added, rfl⟩ := call_add twin
  have few := Trie.room_iff_few.mp ((indexAdd_isSome_iff asMap
    (update_of_ne (by decide) _ _)).mp ⟨_, added⟩) (firstByteEntry 0).hash.bit
    [(firstByteEntry 0).hash, (firstByteEntry 1).hash] (by decide)
  have same : ∀ index ≤ hashBits, 0 < index →
      (firstByteEntry 1).hash.bit index = (firstByteEntry 0).hash.bit index := by decide +kernel
  refine absurd (few ?_) (by decide)
  intro hash member
  rcases List.mem_pair.mp member with rfl | rfl
  · exact ⟨.inr (by simp), fun _ _ _ => rfl⟩
  · exact ⟨.inl rfl, fun index low high => same index (by omega) low⟩

end Liboffs.BlockCache
