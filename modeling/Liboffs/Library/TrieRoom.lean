import Liboffs.Library.BucketTrie

/-!
# Room in tries of buckets

An insertion fails where a bucket overflows and no bit is left to split it.
A set of keys has room if this cannot happen to any of its subsets, whatever
the order of the insertions.  The keys of a trie that was built within the
capacity have room, and so have all subsets of them.
-/

universe u w

namespace Liboffs.Library.BucketTrie.Trie

open List Option Function

variable {Element : Type u} {Key : Type w} (bit : Key → Nat → Bool) (key : Element → Key)

/-- No list of different keys from a set is longer than the capacity. -/
def FewKeys (capacity : Nat) (keys : Key → Prop) : Prop :=
  ∀ list : List Key, list.Nodup → (∀ other ∈ list, keys other) → list.length ≤ capacity

/-- The keys fit in buckets that split at a number of bits from a depth on. -/
def Room (capacity : Nat) : Nat → Nat → (Key → Prop) → Prop
  | 0, _, keys => FewKeys capacity keys
  | bits + 1, depth, keys =>
    FewKeys capacity keys ∨ ∀ side, Room capacity bits (depth + 1)
        fun other => keys other ∧ bit other (depth + 1) = side

variable {bit key} {keys : Key → Prop} {capacity : Nat}

theorem FewKeys.mono (few : FewKeys capacity keys) (subset : ∀ other, fewer other → keys other) :
    FewKeys capacity fewer := fun list distinct members =>
  few list distinct fun other member => subset other (members other member)

theorem FewKeys.room (few : FewKeys capacity keys) (bits depth : Nat) :
    Room bit capacity bits depth keys := by
  cases bits with
  | zero => exact few
  | succ bits => exact .inl few

theorem Room.mono (room : Room bit capacity bits depth keys)
    (subset : ∀ other, fewer other → keys other) : Room bit capacity bits depth fewer := by
  induction bits generalizing depth keys fewer with
  | zero => exact FewKeys.mono room subset
  | succ bits ih =>
    rcases room with few | children
    · exact .inl (few.mono subset)
    · refine .inr fun side => ih (children side) ?_
      rintro other ⟨member, equal⟩
      exact ⟨subset other member, equal⟩

/-- The keys that go to one side have room below. -/
theorem Room.child (room : Room bit capacity (bits + 1) depth keys) (side : Bool) :
    Room bit capacity bits (depth + 1) fun other => keys other ∧ bit other (depth + 1) = side := by
  rcases room with few | children
  · exact (few.mono fun _ both => both.1).room bits (depth + 1)
  · exact children side

theorem room_of_within {bits depth : Nat} {trie : Trie Element} (within : trie.Within capacity)
    (low : trie.height ≤ bits) (routed : trie.Routed bit key depth) :
    Room bit capacity bits depth fun other =>
      ∃ element ∈ trie.toList, key element = other := by
  induction trie generalizing bits depth with
  | leaf bucket =>
    refine FewKeys.room (fun list distinct members => ?_) bits depth
    have subset : list ⊆ bucket.map key := fun other member => mem_map.mpr (members other member)
    have short := (subperm_of_subset distinct subset).length_le
    rw [length_map] at short
    exact Nat.le_trans short within
  | branch left right leftIH rightIH =>
    cases bits with
    | zero => simp [height] at low
    | succ bits =>
      simp only [height, Nat.add_le_add_iff_right, Nat.max_le] at low
      rcases routed with ⟨leftBits, rightBits, leftRouted, rightRouted⟩
      refine .inr fun side => ?_
      cases side with
      | false =>
        refine (leftIH within.1 low.1 leftRouted).mono ?_
        rintro _ ⟨⟨element, member, rfl⟩, goesLeft⟩
        rcases mem_append.mp member with member | member
        · exact ⟨element, member, rfl⟩
        · rw [rightBits element member] at goesLeft
          cases goesLeft
      | true =>
        refine (rightIH within.2 low.2 rightRouted).mono ?_
        rintro _ ⟨⟨element, member, rfl⟩, goesRight⟩
        rcases mem_append.mp member with member | member
        · rw [leftBits element member] at goesRight
          cases goesRight
        · exact ⟨element, member, rfl⟩

/-- Keys have room exactly if few of them agree in all the bits. -/
theorem room_iff_few :
    Room bit capacity bits depth keys ↔
      ∀ pattern : Nat → Bool, FewKeys capacity fun other => keys other ∧
        ∀ index, depth < index → index ≤ depth + bits → bit other index = pattern index := by
  induction bits generalizing depth keys with
  | zero =>
    exact ⟨fun few _ => few.mono fun _ both => both.1,
      fun few => (few fun _ => false).mono fun _ member => ⟨member, by omega⟩⟩
  | succ bits ih =>
    constructor
    · intro room pattern
      refine (ih.mp (room.child (pattern (depth + 1))) pattern).mono ?_
      rintro other ⟨member, same⟩
      exact ⟨⟨member, same _ (by omega) (by omega)⟩,
        fun index low high => same index (by omega) (by omega)⟩
    · refine fun few => .inr fun side => ih.mpr fun pattern =>
        (few (Function.update pattern (depth + 1) side)).mono ?_
      rintro other ⟨⟨member, here⟩, below⟩
      refine ⟨member, fun index low high => ?_⟩
      by_cases first : index = depth + 1
      · rw [first, here, update_self]
      · rw [below index (by omega) (by omega), update_of_ne first]

section
variable [DecidableEq Key] {capacity bits depth : Nat} {keys : Key → Prop}

/-- Insertions below the children succeed for keys of a set. -/
def ChildrenInsert (bit : Key → Nat → Bool) (key : Element → Key)
    (capacity bits depth : Nat) (keys : Key → Prop) : Prop :=
  ∀ (side : Bool) (element : Element) (trie : Trie Element),
    Accepts bit key (depth + 1) element trie → trie.height ≤ bits →
      (∀ other ∈ element :: trie.toList, keys (key other) ∧ bit (key other) (depth + 1) = side) →
      (insert bit key capacity bits element trie (depth + 1)).isSome = true

section
variable (inserts : ChildrenInsert bit key capacity bits depth keys)
include inserts

theorem descend_isSome (accepts : Accepts bit key depth element (.branch left right))
    (low : left.height ≤ bits ∧ right.height ≤ bits)
    (known : ∀ other ∈ element :: (Trie.branch left right).toList, keys (key other)) :
    (descend bit key (insert bit key capacity bits) depth element left right).isSome = true := by
  rcases accepts with ⟨⟨leftBits, rightBits, leftRouted, rightRouted⟩, distinct⟩
  have apart (child : List Element) (sublist : child.Sublist (left.toList ++ right.toList)) :
      ((element :: child).map key).Nodup :=
    distinct.sublist ((sublist.cons_cons element).map key)
  have here := known element mem_cons_self
  have below (other : Element) (member : other ∈ left.toList ++ right.toList) : keys (key other) :=
    known other (mem_cons_of_mem _ member)
  unfold descend
  split
  · rename_i goesRight
    rw [isSome_map]
    refine inserts true element right ⟨rightRouted, apart _ (sublist_append_right _ _)⟩ low.2 ?_
    intro other member
    rcases mem_cons.mp member with rfl | member
    · exact ⟨here, goesRight⟩
    · exact ⟨below other (mem_append_right _ member), rightBits other member⟩
  · rename_i goesLeft
    rw [isSome_map]
    refine inserts false element left ⟨leftRouted, apart _ (sublist_append_left _ _)⟩ low.1 ?_
    intro other member
    rcases mem_cons.mp member with rfl | member
    · exact ⟨here, Bool.eq_false_iff.mpr goesLeft⟩
    · exact ⟨below other (mem_append_left _ member), leftBits other member⟩

theorem descendAll_isSome (routed : (Trie.branch left right).Routed bit key depth) (distinct :
      ((elements ++ (Trie.branch left right).toList).map key).Nodup)
    (low : left.height ≤ bits ∧ right.height ≤ bits)
    (known : ∀ other ∈ elements ++ (Trie.branch left right).toList, keys (key other)) :
    (descendAll bit key (insert bit key capacity bits) depth elements left
      right).isSome = true := by
  induction elements generalizing left right with
  | nil => rfl
  | cons element rest ih =>
    have accepts : Accepts bit key depth element (.branch left right) :=
      ⟨routed, distinct.sublist ((Sublist.cons_cons element (sublist_append_right rest _)).map key)⟩
    rcases isSome_iff_exists.mp (descend_isSome inserts accepts low
      fun other member => known other ((Sublist.cons_cons element
          (sublist_append_right rest _)).subset member)) with
      ⟨⟨⟨left', right'⟩, visits⟩, placed⟩
    have inserted := descend_inserted insert_inserts placed accepts
    have swapped : (rest ++ (Trie.branch left' right').toList).Perm
          (element :: (rest ++ (Trie.branch left right).toList)) :=
      (inserted.perm.append_left rest).trans perm_middle
    simp only [descendAll, placed, bind_some, isSome_map]
    refine ih inserted.routed ((swapped.map key).nodup_iff.mpr distinct)
      (descend_preserves height_insert placed low) ?_
    intro other member
    exact known other (swapped.mem_iff.mp member)

theorem splitAndDescend_isSome (distinct : ((element :: bucket).map key).Nodup)
    (known : ∀ other ∈ element :: bucket, keys (key other)) :
    (splitAndDescend bit key (insert bit key capacity bits) depth element
      bucket).isSome = true := by
  have empty : (Trie.branch (.leaf []) (.leaf []) : Trie Element).Routed
      bit key depth := by
    simp [Routed, toList]
  have low : (Trie.leaf [] : Trie Element).height ≤ bits ∧
      (Trie.leaf [] : Trie Element).height ≤ bits :=
    ⟨Nat.zero_le _, Nat.zero_le _⟩
  have apart : ((bucket ++ (Trie.branch (.leaf []) (.leaf []) :
      Trie Element).toList).map key).Nodup := by
    simpa [toList] using (nodup_cons.mp distinct).2
  rcases isSome_iff_exists.mp (descendAll_isSome inserts empty apart low fun other member =>
      known other (mem_cons_of_mem _ (by simpa [toList] using member)))
    with ⟨⟨⟨left, right⟩, visits⟩, split⟩
  obtain ⟨perm, routed, _, _⟩ := descendAll_spec insert_inserts split empty apart
  simp only [toList, append_nil] at perm
  simp only [splitAndDescend, split, bind_some, isSome_map]
  refine descend_isSome inserts ⟨routed, ((perm.cons element).map key).nodup_iff.mpr distinct⟩
    (descendAll_preserves height_insert split low) ?_
  intro other member
  exact known other ((perm.cons element).mem_iff.mp member)

end

theorem insert_isSome_of_room (room : Room bit capacity bits depth keys)
    (accepts : Accepts bit key depth element trie) (low : trie.height ≤ bits)
    (known : ∀ other ∈ element :: trie.toList, keys (key other)) :
    (insert bit key capacity bits element trie depth).isSome = true := by
  induction bits generalizing depth element trie keys with
  | zero =>
    cases trie with
    | branch left right => simp [height] at low
    | leaf bucket =>
      have short := room ((element :: bucket).map key) accepts.distinct (by
          intro other member
          rcases mem_map.mp member with ⟨source, inside, rfl⟩
          exact known source inside)
      rw [length_map, length_cons] at short
      simp only [insert, find?_eq_none_of_accepts accepts]
      rw [if_pos (Nat.lt_of_succ_le short)]
      rfl
  | succ bits ih =>
    have inserts : ChildrenInsert bit key capacity bits depth keys :=
      fun side element trie accepts low known => ih (room.child side) accepts low known
    cases trie with
    | branch left right =>
      simp only [height, Nat.add_le_add_iff_right, Nat.max_le] at low
      simp only [insert, isSome_map]
      exact descend_isSome inserts accepts low known
    | leaf bucket =>
      simp only [insert, find?_eq_none_of_accepts accepts]
      split
      · rfl
      · rw [isSome_map]
        exact splitAndDescend_isSome inserts accepts.distinct known

end

end Liboffs.Library.BucketTrie.Trie
