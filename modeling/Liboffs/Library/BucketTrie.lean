import Mathlib.Data.List.Nodup
import Mathlib.Data.List.Perm.Basic

/-!
# Binary tries with bucket leaves

A trie routes an element by the bits of its key and keeps the elements of one path in a bucket,
which is split when it is full.  The number of bits that may still be read is the recursion
parameter: when it is exhausted, insertion has no result.

Insertion reports what happened at every leaf it visited.  A split stores the old elements a
second time.  All functions take the key as a parameter and commute with maps that respect the
keys.
-/

namespace Liboffs.Library.BucketTrie

open List Option

universe u v w

/-- A trie is a bucket or two subtries. -/
inductive Trie (Element : Type u) where
  | leaf (bucket : List Element)
  | branch (left right : Trie Element)
deriving DecidableEq

/-- At a leaf: the key was there, the element was stored, or the bucket was full and is split. -/
inductive Visit (Element : Type u) where
  | found (old : Element)
  | stored (element : Element)
  | overflowed (element : Element)

namespace Visit

variable {Element : Type u} {Image : Type v}

/-- The image of a report. -/
def map (image : Element → Image) : Visit Element → Visit Image
  | .found old => .found (image old)
  | .stored element => .stored (image element)
  | .overflowed element => .overflowed (image element)

/-- The elements which a list of reports stores, in order. -/
def storedIn (visits : List (Visit Element)) : List Element :=
  visits.filterMap fun visit =>
    match visit with
    | .stored element => some element
    | _ => none

/-- Whether no report says that the key was present. -/
def NoneFound (visits : List (Visit Element)) : Prop :=
  ∀ old, Visit.found old ∉ visits

@[simp]
theorem storedIn_nil : storedIn ([] : List (Visit Element)) = [] := rfl

@[simp]
theorem storedIn_append : storedIn (first ++ second) = storedIn first ++ storedIn second := by
  simp [storedIn]

@[simp]
theorem storedIn_stored : storedIn (.stored element :: visits) = element :: storedIn visits := by
  simp [storedIn]

@[simp]
theorem storedIn_overflowed : storedIn (.overflowed element :: visits) = storedIn visits := by
  simp [storedIn]

theorem storedIn_map : storedIn (visits.map (Visit.map image)) = (storedIn visits).map image := by
  induction visits with
  | nil => rfl
  | cons visit rest ih => cases visit <;> simp_all [storedIn, map]

end Visit

namespace Trie

variable {Element : Type u} {Image : Type v} {Key : Type w}

/-- All elements of a trie, from left to right. -/
def toList : Trie Element → List Element
  | .leaf bucket => bucket
  | .branch left right => left.toList ++ right.toList

/-- Replace every element by its image. -/
def map (image : Element → Image) : Trie Element → Trie Image
  | .leaf bucket => .leaf (bucket.map image)
  | .branch left right => .branch (left.map image) (right.map image)

/-- The number of branches on a longest path. -/
def height : Trie Element → Nat
  | .leaf _ => 0
  | .branch left right => max left.height right.height + 1

@[simp]
theorem toList_map (image : Element → Image) (trie : Trie Element) :
    (trie.map image).toList = trie.toList.map image := by
  induction trie with
  | leaf bucket => rfl
  | branch left right leftIH rightIH => simp [map, toList, leftIH, rightIH]

@[simp]
theorem height_map (trie : Trie Element) : (trie.map image).height = trie.height := by
  induction trie with
  | leaf bucket => rfl
  | branch left right leftIH rightIH => simp [map, height, leftIH, rightIH]

theorem map_map (outer : Image → Other) (inner : Element → Image) (trie : Trie Element) :
    (trie.map inner).map outer = trie.map fun element => outer (inner element) := by
  induction trie with
  | leaf bucket =>
    simp only [map, List.map_map]
    rfl
  | branch left right leftIH rightIH => simp only [map, leftIH, rightIH]

@[simp]
theorem map_id (trie : Trie Element) : (trie.map fun x => x) = trie := by
  induction trie with
  | leaf bucket => simp [map]
  | branch left right leftIH rightIH => simp only [map, leftIH, rightIH]

variable {trie : Trie Element}

theorem map_congr (agree : ∀ element ∈ trie.toList, first element = second element) :
    trie.map first = trie.map second := by
  induction trie with
  | leaf bucket => exact congrArg Trie.leaf (map_congr_left agree)
  | branch left right leftIH rightIH =>
    simp only [toList, mem_append] at agree
    simp only [map]
    rw [leftIH fun element member => agree element (.inl member),
      rightIH fun element member => agree element (.inr member)]

variable {elements bucket : List Element} {holds : Trie Element → Prop}

section
variable (bit : Key → Nat → Bool) (key : Element → Key)

/-- The first element of the addressed bucket that has the sought key. -/
def find [DecidableEq Key] (sought : Key) : Trie Element → Nat → Option Element
  | .leaf bucket, _ => bucket.find? fun element => key element = sought
  | .branch left right, depth =>
    if bit sought (depth + 1) then
      find sought right (depth + 1)
    else
      find sought left (depth + 1)

/-- The number of key bits that a search reads. -/
def pathLength (sought : Key) : Trie Element → Nat → Nat
  | .leaf _, _ => 0
  | .branch left right, depth =>
    if bit sought (depth + 1) then
      pathLength sought right (depth + 1) + 1
    else
      pathLength sought left (depth + 1) + 1

/-- Erase the first element of the addressed bucket with the sought key. -/
def erase [DecidableEq Key] (sought : Key) : Trie Element → Nat → Trie Element
  | .leaf bucket, _ => .leaf (bucket.eraseP fun element => key element = sought)
  | .branch left right, depth =>
    if bit sought (depth + 1) then
      .branch left (erase sought right (depth + 1))
    else
      .branch (erase sought left (depth + 1)) right

/-- Every element lies below the children that its key selects. -/
def Routed : Trie Element → Nat → Prop
  | .leaf _, _ => True
  | .branch left right, depth =>
    (∀ element ∈ left.toList, bit (key element) (depth + 1) = false) ∧ (∀ element ∈ right.toList,
        bit (key element) (depth + 1) = true) ∧
      Routed left (depth + 1) ∧ Routed right (depth + 1)

/-- A function that stores an element in a trie at some depth. -/
abbrev Store (Element : Type u) :=
  Element → Trie Element → Nat → Option (Trie Element × List (Visit Element))

/-- Two children with the reports of what was stored in them. -/
abbrev Children (Element : Type u) :=
  (Trie Element × Trie Element) × List (Visit Element)

/-- Send an element to the child its key selects. -/
def descend (store : Store Element) (depth : Nat) (element : Element)
    (left right : Trie Element) : Option (Children Element) :=
  if bit (key element) (depth + 1) then
    (store element right (depth + 1)).map fun stored => ((left, stored.1), stored.2)
  else
    (store element left (depth + 1)).map fun stored => ((stored.1, right), stored.2)

/-- Send the elements of a list to the children one after the other. -/
def descendAll (store : Store Element) (depth : Nat) :
    List Element → Trie Element → Trie Element → Option (Children Element)
  | [], left, right => some ((left, right), [])
  | element :: rest, left, right =>
    (descend bit key store depth element left right).bind fun placed =>
      (descendAll store depth rest placed.1.1 placed.1.2).map
        fun finished => (finished.1, placed.2 ++ finished.2)

/-- Split a full bucket, and send one more element to the children. -/
def splitAndDescend (store : Store Element) (depth : Nat) (element : Element)
    (bucket : List Element) : Option (Children Element) :=
  (descendAll bit key store depth bucket (.leaf []) (.leaf [])).bind fun split =>
      (descend bit key store depth element split.1.1 split.1.2).map fun placed =>
          (placed.1, .overflowed element :: (split.2 ++ placed.2))

/--
Insert an element unless its key is present, with the visited leaves and the bits that may be
read.
-/
def insert [DecidableEq Key] (capacity : Nat) : Nat → Store Element
  | bits, element, .leaf bucket, depth =>
    match bucket.find? fun old => key old = key element with
    | some old => some (.leaf bucket, [.found old])
    | none =>
      if bucket.length < capacity then
        some (.leaf (bucket ++ [element]), [.stored element])
      else
        match bits with
        | 0 => none
        | bits + 1 =>
          (splitAndDescend bit key (insert capacity bits) depth element bucket).map fun placed =>
              (.branch placed.1.1 placed.1.2, placed.2)
  | 0, _, .branch _ _, _ => none
  | bits + 1, element, .branch left right, depth =>
    (descend bit key (insert capacity bits) depth element left right).map
      fun placed => (.branch placed.1.1 placed.1.2, placed.2)

variable {bit key} {depth capacity : Nat} {element : Element} {visits : List (Visit Element)}
  {left left' right right' : Trie Element} {store : Store Element}

section
variable [DecidableEq Key]

theorem find_mem (found : trie.find bit key sought depth = some element) :
    element ∈ trie.toList ∧ key element = sought := by
  induction trie generalizing depth with
  | leaf bucket =>
    exact ⟨mem_of_find?_eq_some found, by simpa using find?_some found⟩
  | branch left right leftIH rightIH =>
    simp only [find] at found
    simp only [toList, mem_append]
    split at found
    · exact ⟨.inr (rightIH found).1, (rightIH found).2⟩
    · exact ⟨.inl (leftIH found).1, (leftIH found).2⟩

section
variable (routed : trie.Routed bit key depth)
include routed

/-- A search in a routed trie finds the key of every element. -/
theorem find_isSome (member : element ∈ trie.toList) :
    (trie.find bit key (key element) depth).isSome := by
  induction trie generalizing depth with
  | leaf bucket =>
    simp only [find, find?_isSome]
    exact ⟨element, member, by simp⟩
  | branch left right leftIH rightIH =>
    obtain ⟨leftBits, rightBits, leftRouted, rightRouted⟩ := routed
    simp only [toList, mem_append] at member
    simp only [find]
    rcases member with member | member
    · simp only [leftBits element member, reduceCtorEq, if_false]
      exact leftIH leftRouted member
    · simp only [rightBits element member, if_true]
      exact rightIH rightRouted member

theorem find_eq_none_iff :
    trie.find bit key sought depth = none ↔ ∀ element ∈ trie.toList, key element ≠ sought := by
  constructor
  · intro absent element member equal
    have present := find_isSome routed member
    rw [equal, absent] at present
    exact Bool.noConfusion present
  · intro absent
    cases found : trie.find bit key sought depth with
    | none => rfl
    | some element =>
      have member := find_mem found
      exact absurd member.2 (absent element member.1)

theorem find_eq_some_iff (distinct : (trie.toList.map key).Nodup) :
    trie.find bit key sought depth = some element ↔
      element ∈ trie.toList ∧ key element = sought := by
  constructor
  · exact find_mem
  · rintro ⟨member, rfl⟩
    obtain ⟨other, found⟩ := isSome_iff_exists.mp (find_isSome routed member)
    have otherMember := find_mem found
    have equal : other = element := inj_on_of_nodup_map distinct otherMember.1 member otherMember.2
    rw [found, equal]

end

theorem erase_of_absent (absent : trie.find bit key sought depth = none) :
    trie.erase bit key sought depth = trie := by
  induction trie generalizing depth with
  | leaf bucket =>
    simp only [find, find?_eq_none] at absent
    simp only [erase]
    rw [eraseP_of_forall_not absent]
  | branch left right leftIH rightIH =>
    simp only [find] at absent
    simp only [erase]
    split at absent
    · rw [if_pos ‹_›, rightIH absent]
    · rw [if_neg ‹_›, leftIH absent]

theorem toList_erase_sublist (sought : Key) (trie : Trie Element) (depth : Nat) :
    (trie.erase bit key sought depth).toList.Sublist trie.toList := by
  induction trie generalizing depth with
  | leaf bucket => exact eraseP_sublist
  | branch left right leftIH rightIH =>
    simp only [erase]
    split
    · exact Sublist.append (Sublist.refl _) (rightIH _)
    · exact Sublist.append (leftIH _) (Sublist.refl _)

/-- Erasing takes exactly the found element away. -/
theorem perm_cons_erase (found : trie.find bit key sought depth = some element) :
    trie.toList.Perm (element :: (trie.erase bit key sought depth).toList) := by
  induction trie generalizing depth with
  | leaf bucket =>
    simp only [find] at found
    simp only [erase, toList]
    induction bucket with
    | nil => simp at found
    | cons first rest ih =>
      by_cases equal : key first = sought
      · simp only [find?_cons, equal, decide_true, Option.some.injEq] at found
        subst found
        simp [equal]
      · simp only [find?_cons, equal, decide_false] at found
        simp only [eraseP_cons, equal, decide_false, cond_false]
        exact ((ih found).cons first).trans (Perm.swap element first _)
  | branch left right leftIH rightIH =>
    simp only [find] at found
    simp only [erase, toList]
    split at found
    · rw [if_pos ‹_›]
      exact ((rightIH found).append_left _).trans perm_middle
    · rw [if_neg ‹_›]
      exact (leftIH found).append_right _

theorem routed_erase (routed : trie.Routed bit key depth) :
    (trie.erase bit key sought depth).Routed bit key depth := by
  induction trie generalizing depth with
  | leaf bucket => trivial
  | branch left right leftIH rightIH =>
    obtain ⟨leftBits, rightBits, leftRouted, rightRouted⟩ := routed
    simp only [erase]
    split
    · exact ⟨leftBits, fun element member => rightBits element
          ((toList_erase_sublist _ _ _).subset member),
        leftRouted, rightIH rightRouted⟩
    · exact ⟨fun element member => leftBits element ((toList_erase_sublist _ _ _).subset member),
        rightBits, leftIH leftRouted, rightRouted⟩

theorem height_erase (trie : Trie Element) :
    (trie.erase bit key sought depth).height = trie.height := by
  induction trie generalizing depth with
  | leaf bucket => rfl
  | branch left right leftIH rightIH =>
    simp only [erase]
    split
    · simp only [height, rightIH]
    · simp only [height, leftIH]

end

variable (bit key)

/--
An insertion adds the new element, and stores it last, after old elements that are stored again.
-/
structure Inserted (depth : Nat) (element : Element) (before after : Trie Element)
    (visits : List (Visit Element)) : Prop where
  perm : after.toList.Perm (element :: before.toList)
  routed : after.Routed bit key depth
  stored : ∃ again, Visit.storedIn visits = again ++ [element] ∧
    ∀ other ∈ again, other ∈ before.toList
  noneFound : Visit.NoneFound visits

/-- A trie in which an element with a new key can be inserted. -/
structure Accepts (depth : Nat) (element : Element) (trie : Trie Element) : Prop where
  routed : trie.Routed bit key depth
  distinct : ((element :: trie.toList).map key).Nodup

/-- A store function that inserts at every depth. -/
def Inserts (store : Store Element) : Prop :=
  ∀ {depth element before after visits},
    store element before depth = some (after, visits) → Accepts bit key depth element before →
        Inserted bit key depth element before after visits

variable {bit key}

theorem Inserted.mem_iff {before after : Trie Element}
    (inserted : Inserted bit key depth element before after visits) {other : Element} :
    other ∈ after.toList ↔ other = element ∨ other ∈ before.toList := by
  rw [inserted.perm.mem_iff, mem_cons]

section
variable (inserts : Inserts bit key store)
include inserts

theorem descend_inserted
    (placed : descend bit key store depth element left right = some ((left', right'), visits))
    (accepts : Accepts bit key depth element (.branch left right)) :
    Inserted bit key depth element (.branch left right) (.branch left' right') visits := by
  obtain ⟨⟨leftBits, rightBits, leftRouted, rightRouted⟩, distinct⟩ := accepts
  simp only [toList, map_cons, map_append, nodup_cons, mem_append, not_or, nodup_append] at distinct
  obtain ⟨⟨notLeft, notRight⟩, leftDistinct, rightDistinct, _⟩ := distinct
  simp only [descend] at placed
  by_cases goesRight : bit (key element) (depth + 1) = true
  · simp only [goesRight, if_true, map_eq_some_iff, Prod.exists] at placed
    obtain ⟨after, reports, stored, equal⟩ := placed
    obtain ⟨⟨rfl, rfl⟩, rfl⟩ := equal
    have inserted := inserts stored ⟨rightRouted, nodup_cons.mpr ⟨notRight, rightDistinct⟩⟩
    obtain ⟨again, storedIn, old⟩ := inserted.stored
    refine ⟨(inserted.perm.append_left _).trans perm_middle,
      ⟨leftBits, fun other member => ?_, leftRouted, inserted.routed⟩,
      ⟨again, storedIn, fun other member => mem_append_right _ (old other member)⟩,
      inserted.noneFound⟩
    rcases inserted.mem_iff.mp member with rfl | member
    · exact goesRight
    · exact rightBits other member
  · simp only [goesRight, if_false, reduceCtorEq, map_eq_some_iff, Prod.exists] at placed
    obtain ⟨after, reports, stored, equal⟩ := placed
    obtain ⟨⟨rfl, rfl⟩, rfl⟩ := equal
    have inserted := inserts stored ⟨leftRouted, nodup_cons.mpr ⟨notLeft, leftDistinct⟩⟩
    obtain ⟨again, storedIn, old⟩ := inserted.stored
    refine ⟨inserted.perm.append_right _,
      ⟨fun other member => ?_, rightBits, inserted.routed, rightRouted⟩,
      ⟨again, storedIn, fun other member => mem_append_left _ (old other member)⟩,
      inserted.noneFound⟩
    rcases inserted.mem_iff.mp member with rfl | member
    · exact Bool.eq_false_iff.mpr goesRight
    · exact leftBits other member

/-- The elements of a list arrive in the children, and nothing else does. -/
theorem descendAll_spec
    (placed : descendAll bit key store depth elements left right = some ((left', right'), visits))
    (routed : (Trie.branch left right).Routed bit key depth) (distinct :
      ((elements ++ (Trie.branch left right).toList).map key).Nodup) :
    (Trie.branch left' right').toList.Perm (elements ++ (Trie.branch left right).toList) ∧
      (Trie.branch left' right').Routed bit key depth ∧ (∀ other ∈ Visit.storedIn visits,
        other ∈ elements ++ (Trie.branch left right).toList) ∧
      Visit.NoneFound visits := by
  induction elements generalizing left right visits with
  | nil =>
    obtain ⟨⟨rfl, rfl⟩, rfl⟩ := placed
    exact ⟨Perm.refl _, routed, by simp, by simp [Visit.NoneFound]⟩
  | cons element rest ih =>
    simp only [descendAll, bind_eq_some_iff, map_eq_some_iff, Prod.exists] at placed
    obtain ⟨left1, right1, reports1, first, left2, right2, reports2, second, equal⟩ := placed
    obtain ⟨⟨rfl, rfl⟩, rfl⟩ := equal
    have accepted : Accepts bit key depth element (.branch left right) :=
      ⟨routed, distinct.sublist ((Sublist.cons_cons element (sublist_append_right rest _)).map key)⟩
    have inserted := descend_inserted inserts first accepted
    have swapped : (rest ++ (Trie.branch left1 right1).toList).Perm
          (element :: (rest ++ (Trie.branch left right).toList)) :=
      (inserted.perm.append_left rest).trans perm_middle
    obtain ⟨perm, routed', stored, noneFound⟩ :=
      ih second inserted.routed ((swapped.map key).nodup_iff.mpr distinct)
    refine ⟨perm.trans swapped, routed', ?_, ?_⟩
    · intro other member
      obtain ⟨again, storedIn, old⟩ := inserted.stored
      simp only [Visit.storedIn_append, storedIn, mem_append, mem_singleton] at member
      rcases member with (member | rfl) | member
      · exact mem_cons_of_mem _ (mem_append_right _ (old other member))
      · exact mem_cons_self
      · exact swapped.mem_iff.mp (stored other member)
    · intro old member
      rcases mem_append.mp member with member | member
      · exact inserted.noneFound old member
      · exact noneFound old member

theorem splitAndDescend_inserted
    (placed : splitAndDescend bit key store depth element bucket = some ((left, right), visits))
    (distinct : ((element :: bucket).map key).Nodup) :
    Inserted bit key depth element (.leaf bucket) (.branch left right) visits := by
  simp only [splitAndDescend, bind_eq_some_iff, map_eq_some_iff, Prod.exists] at placed
  obtain ⟨left1, right1, reports1, first, left2, right2, reports2, second, equal⟩ := placed
  obtain ⟨⟨rfl, rfl⟩, rfl⟩ := equal
  have empty : (Trie.branch (.leaf []) (.leaf []) : Trie Element).Routed
      bit key depth := by
    simp [Routed, toList]
  obtain ⟨perm, routed, stored, noneFound⟩ :=
    descendAll_spec inserts first empty (by simpa [toList] using (nodup_cons.mp distinct).2)
  simp only [toList, append_nil] at perm stored
  have inserted := descend_inserted inserts second
    ⟨routed, (((perm.cons element).map key).nodup_iff).mpr distinct⟩
  obtain ⟨again, storedIn, old⟩ := inserted.stored
  refine ⟨inserted.perm.trans (perm.cons element), inserted.routed,
    ⟨Visit.storedIn reports1 ++ again, ?_, ?_⟩, ?_⟩
  · simp [storedIn]
  · intro other member
    rcases mem_append.mp member with member | member
    · exact stored other member
    · exact perm.mem_iff.mp (old other member)
  · intro old member
    simp only [mem_cons, reduceCtorEq, mem_append, false_or] at member
    rcases member with member | member
    · exact noneFound old member
    · exact inserted.noneFound old member

end

theorem inserted_leaf :
    Inserted bit key depth element (.leaf bucket)
      (.leaf (bucket ++ [element])) [.stored element] where
  perm := perm_append_singleton element bucket
  routed := trivial
  stored := ⟨[], rfl, by simp⟩
  noneFound := by simp [Visit.NoneFound]

section
variable [DecidableEq Key]

theorem find?_eq_none_of_accepts (accepts : Accepts bit key depth element (.leaf bucket)) :
    bucket.find? (fun old => key old = key element) = none := by
  have absent := (nodup_cons.mp accepts.distinct).1
  simp only [find?_eq_none, decide_eq_true_eq]
  intro old member equal
  exact absent (equal ▸ mem_map_of_mem member)

theorem insert_inserts : Inserts bit key (insert bit key capacity bits) := by
  induction bits with
  | zero =>
    intro depth element before after visits inserted accepts
    cases before with
    | leaf bucket =>
      simp only [insert, find?_eq_none_of_accepts accepts] at inserted
      split at inserted
      · cases inserted
        exact inserted_leaf
      · simp at inserted
    | branch left right => simp [insert] at inserted
  | succ bits ih =>
    intro depth element before after visits inserted accepts
    cases before with
    | leaf bucket =>
      simp only [insert, find?_eq_none_of_accepts accepts] at inserted
      split at inserted
      · cases inserted
        exact inserted_leaf
      · simp only [map_eq_some_iff, Prod.exists, Prod.mk.injEq] at inserted
        obtain ⟨left, right, reports, placed, rfl, rfl⟩ := inserted
        exact splitAndDescend_inserted ih placed accepts.distinct
    | branch left right =>
      simp only [insert, map_eq_some_iff, Prod.exists, Prod.mk.injEq] at inserted
      obtain ⟨left', right', reports, placed, rfl, rfl⟩ := inserted
      exact descend_inserted ih placed accepts

/-- A search below the bits that are left finds a present key. -/
theorem insert_of_found (found : trie.find bit key (key element) depth = some old)
    (enough : trie.height ≤ bits) :
    insert bit key capacity bits element trie depth = some (trie, [.found old]) := by
  induction trie generalizing depth bits with
  | leaf bucket =>
    simp only [find] at found
    cases bits <;> simp only [insert, found]
  | branch left right leftIH rightIH =>
    cases bits with
    | zero => simp [height] at enough
    | succ bits =>
      simp only [height, Nat.add_le_add_iff_right, Nat.max_le] at enough
      simp only [find] at found
      simp only [insert, descend]
      split at found
      · rw [if_pos ‹_›, rightIH found enough.2]
        rfl
      · rw [if_neg ‹_›, leftIH found enough.1]
        rfl

end

/-- A store function which keeps a property of tries. -/
def Preserves (store : Store Element) (holds : Trie Element → Prop) : Prop :=
  ∀ ⦃depth element before after visits⦄,
    store element before depth = some (after, visits) → holds before → holds after

theorem descend_preserves (preserves : Preserves store holds)
    (placed : descend bit key store depth element left right = some ((left', right'), visits))
    (children : holds left ∧ holds right) : holds left' ∧ holds right' := by
  simp only [descend] at placed
  split at placed
  · simp only [map_eq_some_iff, Prod.exists, Prod.mk.injEq] at placed
    obtain ⟨after, reports, stored, ⟨rfl, rfl⟩, rfl⟩ := placed
    exact ⟨children.1, preserves stored children.2⟩
  · simp only [map_eq_some_iff, Prod.exists, Prod.mk.injEq] at placed
    obtain ⟨after, reports, stored, ⟨rfl, rfl⟩, rfl⟩ := placed
    exact ⟨preserves stored children.1, children.2⟩

theorem descendAll_preserves (preserves : Preserves store holds)
    (placed : descendAll bit key store depth elements left right = some ((left', right'), visits))
    (children : holds left ∧ holds right) : holds left' ∧ holds right' := by
  induction elements generalizing left right visits with
  | nil =>
    obtain ⟨⟨rfl, rfl⟩, rfl⟩ := placed
    exact children
  | cons element rest ih =>
    simp only [descendAll, bind_eq_some_iff, map_eq_some_iff, Prod.exists, Prod.mk.injEq] at placed
    obtain ⟨left1, right1, reports1, first, left2, right2, reports2,
      second, ⟨rfl, rfl⟩, rfl⟩ := placed
    exact ih second (descend_preserves preserves first children)

/--
Insertion keeps a property that growing leaves keep and that a branch has when both children have
it.
-/
theorem insert_preserves [DecidableEq Key] (holds : Nat → Trie Element → Prop)
    (empty : ∀ bits, holds bits (.leaf []))
    (grow : ∀ bits bucket element, bucket.length < capacity →
      holds bits (.leaf bucket) → holds bits (.leaf (bucket ++ [element])))
    (branch : ∀ bits left right, holds (bits + 1) (.branch left right) ↔
      holds bits left ∧ holds bits right) :
    Preserves (insert bit key capacity bits) (holds bits) := by
  induction bits with
  | zero =>
    intro depth element before after visits inserted low
    cases before with
    | leaf bucket =>
      simp only [insert] at inserted
      split at inserted
      · simp_all
      · split at inserted
        · simp only [Option.some.injEq, Prod.mk.injEq] at inserted
          exact inserted.1 ▸ grow 0 bucket element ‹_› low
        · simp at inserted
    | branch left right => simp [insert] at inserted
  | succ bits ih =>
    intro depth element before after visits inserted low
    cases before with
    | leaf bucket =>
      simp only [insert] at inserted
      split at inserted
      · simp_all
      · split at inserted
        · simp only [Option.some.injEq, Prod.mk.injEq] at inserted
          exact inserted.1 ▸ grow _ bucket element ‹_› low
        · simp only [splitAndDescend, map_eq_some_iff, bind_eq_some_iff, Prod.exists,
            Prod.mk.injEq] at inserted
          obtain ⟨_, _, _, ⟨_, _, _, first, _, _, _, second, ⟨rfl, rfl⟩, rfl⟩, rfl, rfl⟩ := inserted
          have split := descendAll_preserves ih first ⟨empty bits, empty bits⟩
          exact (branch _ _ _).mpr (descend_preserves ih second split)
    | branch left right =>
      simp only [insert, map_eq_some_iff, Prod.exists, Prod.mk.injEq] at inserted
      obtain ⟨left', right', reports, placed, rfl, rfl⟩ := inserted
      exact (branch _ _ _).mpr (descend_preserves ih placed ((branch _ _ _).mp low))

theorem height_insert [DecidableEq Key] :
    Preserves (insert bit key capacity bits) (fun trie => trie.height ≤ bits) := by
  refine insert_preserves (fun bits trie => trie.height ≤ bits) (fun bits => Nat.zero_le bits)
    (fun bits bucket element room low => low) (fun bits left right => ?_)
  simp only [height, Nat.add_le_add_iff_right, Nat.max_le]

/-- No bucket holds more elements than the capacity. -/
def Within (capacity : Nat) : Trie Element → Prop
  | .leaf bucket => bucket.length ≤ capacity
  | .branch left right => left.Within capacity ∧ right.Within capacity

theorem within_insert [DecidableEq Key] :
    Preserves (insert bit key capacity bits) (Within capacity) := by
  refine insert_preserves (fun _ => Within capacity) (fun bits => Nat.zero_le capacity)
    (fun bits bucket element room low => ?_) (fun bits left right => Iff.rfl)
  simp only [Within, length_append, length_singleton]
  exact room

theorem within_erase [DecidableEq Key] (within : trie.Within capacity)
    (sought : Key) (depth : Nat) : (trie.erase bit key sought depth).Within capacity := by
  induction trie generalizing depth with
  | leaf bucket => exact Nat.le_trans eraseP_sublist.length_le within
  | branch left right leftIH rightIH =>
    simp only [erase]
    split
    · exact ⟨within.1, rightIH within.2 _⟩
    · exact ⟨leftIH within.1 _, within.2⟩

theorem within_map (trie : Trie Element) :
    (trie.map image).Within capacity ↔ trie.Within capacity := by
  induction trie with
  | leaf bucket => simp [map, Within]
  | branch left right leftIH rightIH => simp only [map, Within, leftIH, rightIH]

end

section
variable (bit : Key → Nat → Bool) (keyOf : Image → Key) (image : Element → Image)

theorem routed_map (trie : Trie Element) :
    (trie.map image).Routed bit keyOf depth ↔
      trie.Routed bit (fun element => keyOf (image element)) depth := by
  induction trie generalizing depth with
  | leaf bucket => exact Iff.rfl
  | branch left right leftIH rightIH => simp [map, Routed, leftIH, rightIH]

theorem find_map [DecidableEq Key] (trie : Trie Element) :
    (trie.map image).find bit keyOf sought depth =
      (trie.find bit (fun element => keyOf (image element)) sought depth).map image := by
  induction trie generalizing depth with
  | leaf bucket =>
    simp only [map, find, find?_map]
    rfl
  | branch left right leftIH rightIH =>
    simp only [map, find, leftIH, rightIH]
    split <;> rfl

theorem erase_map [DecidableEq Key] (trie : Trie Element) :
    (trie.map image).erase bit keyOf sought depth =
      (trie.erase bit (fun element => keyOf (image element)) sought depth).map image := by
  induction trie generalizing depth with
  | leaf bucket =>
    simp only [map, erase, eraseP_map]
    rfl
  | branch left right leftIH rightIH =>
    simp only [map, erase, leftIH, rightIH]
    split <;> rfl

/-- The image of an inserted trie with its reports. -/
def mapStored (stored : Trie Element × List (Visit Element)) : Trie Image × List (Visit Image) :=
  (stored.1.map image, stored.2.map (Visit.map image))

/-- The image of two children with their reports. -/
def mapChildren (children : Children Element) : Children Image :=
  ((children.1.1.map image, children.1.2.map image), children.2.map (Visit.map image))

/-- Two store functions which correspond along the map. -/
def Corresponds (source : Store Element) (target : Store Image) : Prop :=
  ∀ element trie depth,
    target (image element) (trie.map image) depth =
      (source element trie depth).map (mapStored image)

variable {image} {source : Store Element} {target : Store Image}

section
variable (corresponds : Corresponds image source target)
include corresponds

theorem descend_map (depth : Nat) (element : Element) (left right : Trie Element) :
    descend bit keyOf target depth (image element) (left.map image) (right.map image) =
      (descend bit (fun other => keyOf (image other)) source depth element
        left right).map (mapChildren image) := by
  simp only [descend]
  split
  · rw [corresponds, Option.map_map, Option.map_map]
    rfl
  · rw [corresponds, Option.map_map, Option.map_map]
    rfl

theorem descendAll_map (depth : Nat) (elements : List Element) (left right : Trie Element) :
    descendAll bit keyOf target depth (elements.map image) (left.map image) (right.map image) =
      (descendAll bit (fun other => keyOf (image other)) source depth
        elements left right).map (mapChildren image) := by
  induction elements generalizing left right with
  | nil => rfl
  | cons element rest ih =>
    simp only [map_cons, descendAll]
    rw [descend_map bit keyOf corresponds]
    cases descend bit (fun other => keyOf (image other)) source depth element left right with
    | none => rfl
    | some placed =>
      simp only [map_some, bind_some, mapChildren]
      rw [ih, Option.map_map, Option.map_map]
      congr 1
      funext finished
      simp [mapChildren]

theorem splitAndDescend_map (depth : Nat) (element : Element) (bucket : List Element) :
    splitAndDescend bit keyOf target depth (image element) (bucket.map image) =
      (splitAndDescend bit (fun other => keyOf (image other)) source depth
        element bucket).map (mapChildren image) := by
  simp only [splitAndDescend]
  have split := descendAll_map bit keyOf corresponds depth bucket (.leaf []) (.leaf [])
  simp only [map, map_nil] at split
  rw [split]
  cases descendAll bit (fun other => keyOf (image other)) source depth
      bucket (.leaf []) (.leaf []) with
  | none => rfl
  | some children =>
    simp only [map_some, bind_some, mapChildren]
    rw [descend_map bit keyOf corresponds, Option.map_map, Option.map_map]
    congr 1
    funext placed
    simp [mapChildren, Visit.map]

end

/-- Insertion commutes with a map of the elements. -/
theorem insert_map [DecidableEq Key] :
    Corresponds image (insert bit (fun other => keyOf (image other)) capacity bits)
      (insert bit keyOf capacity bits) := by
  have found (bucket : List Element) (element : Element) : (bucket.map image).find?
          (fun old => keyOf old = keyOf (image element)) =
        (bucket.find? fun old =>
          keyOf (image old) = keyOf (image element)).map image := by
    rw [find?_map]
    rfl
  induction bits with
  | zero =>
    intro element trie depth
    cases trie with
    | branch left right => rfl
    | leaf bucket =>
      simp only [map, insert, found]
      cases bucket.find? fun old =>
          keyOf (image old) = keyOf (image element) with
      | some old => rfl
      | none =>
        simp only [map_none, length_map]
        split <;> simp [mapStored, map, Visit.map]
  | succ bits ih =>
    intro element trie depth
    cases trie with
    | branch left right =>
      simp only [map, insert]
      rw [descend_map bit keyOf ih, Option.map_map, Option.map_map]
      rfl
    | leaf bucket =>
      simp only [map, insert, found]
      cases bucket.find? fun old =>
          keyOf (image old) = keyOf (image element) with
      | some old => rfl
      | none =>
        simp only [map_none, length_map]
        split
        · simp [mapStored, map, Visit.map]
        · rw [splitAndDescend_map bit keyOf ih, Option.map_map, Option.map_map]
          rfl

end

end Trie

end Liboffs.Library.BucketTrie
