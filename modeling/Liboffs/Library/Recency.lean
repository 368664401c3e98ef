import Mathlib.Data.List.Nodup

/-!
# Lists in the order of last use

A cache that keeps its elements in the order of their last use is a list
without two elements of one key, the most recently used element first.  A use
moves an element to the front, and the last element is the one to evict.
-/

namespace Liboffs.Library.Recency

open List

variable {α κ : Type*} [DecidableEq κ] (key : α → κ)

/-- The element of a key. -/
def find (k : κ) (list : List α) : Option α :=
  list.find? fun element => key element = k

/-- The elements of the other keys. -/
def without (k : κ) (list : List α) : List α :=
  list.filter fun element => key element ≠ k

/-- Move the element of a key to the front. -/
def touch (k : κ) (list : List α) : List α :=
  match find key k list with
  | some element => element :: without key k list
  | none => list

/-- Put an element in the place of the one with its key. -/
def replace (element : α) (list : List α) : List α :=
  list.map fun other => if key other = key element then element else other

/-- No two elements have the same key. -/
def Distinct (list : List α) : Prop :=
  (list.map key).Nodup

variable {key} {list : List α}

theorem find_eq_none : find key k list = none ↔ ∀ element ∈ list, key element ≠ k := by
  simp [find]

theorem find_cons_self : find key (key element) (element :: list) = some element :=
  find?_cons_of_pos (decide_eq_true rfl)

theorem find_cons_of_ne (different : key element ≠ k) :
    find key k (element :: list) = find key k list :=
  find?_cons_of_neg (by simpa using different)

theorem mem_of_find (found : find key k list = some element) : element ∈ list ∧ key element = k :=
  ⟨mem_of_find?_eq_some found, by
    have passes := find?_some found
    exact of_decide_eq_true passes⟩

theorem mem_without : element ∈ without key k list ↔ element ∈ list ∧ key element ≠ k := by
  simp [without]

theorem find_without (different : other ≠ k) :
    find key other (without key k list) = find key other list := by
  rw [find, without, find?_filter, find]
  congr 1
  funext element
  by_cases here : key element = other
  · simp [here, different]
  · simp [here]

/-- A use does not change which elements there are. -/
theorem find_touch : find key other (touch key k list) = find key other list := by
  unfold touch
  split
  · rename_i element found
    by_cases same : other = k
    · subst same
      have here := (mem_of_find found).2
      rw [found, ← here]
      exact find_cons_self
    · rw [find_cons_of_ne, find_without same]
      rw [(mem_of_find found).2]
      exact fun equal => same equal.symm
  · rfl

theorem mem_of_mem_touch (member : element ∈ touch key k list) : element ∈ list := by
  unfold touch at member
  split at member
  · rename_i first found
    rcases mem_cons.mp member with rfl | other
    · exact (mem_of_find found).1
    · exact (mem_without.mp other).1
  · exact member

theorem map_key_replace : (replace key element list).map key = list.map key := by
  rw [replace, map_map]
  refine map_congr_left fun other _ => ?_
  simp only [Function.comp_apply]
  split
  · rename_i same
    exact same.symm
  · rfl

/-- The last of two elements with one key stays. -/
theorem replace_replace (same : key later = key element) :
    replace key later (replace key element list) = replace key later list := by
  simp only [replace, map_map]
  refine map_congr_left fun other _ => ?_
  split <;> simp_all

theorem mem_replace (member : first ∈ replace key element list) :
    first = element ∨ first ∈ list ∧ key first ≠ key element := by
  rcases mem_map.mp member with ⟨old, inside, equal⟩
  split at equal
  · exact .inl equal.symm
  · rename_i different
    subst equal
    exact .inr ⟨inside, different⟩

theorem find_replace :
    find key k (replace key element list) =
      if key element = k then (find key k list).map fun _ => element
      else find key k list := by
  induction list with
  | nil => simp [find, replace]
  | cons head rest ih =>
    simp only [find, replace, map_cons] at ih ⊢
    by_cases same : key head = key element
    · simp only [same, if_true]
      by_cases here : key element = k
      · simp [here, same]
      · simp only [here, if_false] at ih ⊢
        rw [find?_cons_of_neg (by simpa using here),
          find?_cons_of_neg (by simpa [same] using here), ih]
    · simp only [same, if_false]
      by_cases here : key head = k
      · have other : key element ≠ k := fun equal =>
          same (here.trans equal.symm)
        simp [here, other]
      · rw [find?_cons_of_neg (by simpa using here), find?_cons_of_neg (by simpa using here), ih]

section
variable (distinct : Distinct key list)
include distinct

theorem Distinct.find_of_mem (member : element ∈ list) :
    find key (key element) list = some element := by
  cases found : find key (key element) list with
  | none => exact absurd rfl (find_eq_none.mp found element member)
  | some other =>
    have here := mem_of_find found
    rw [inj_on_of_nodup_map distinct here.1 member here.2]

theorem Distinct.without : Distinct key (without key k list) :=
  distinct.sublist (filter_sublist.map key)

theorem mem_touch : element ∈ touch key k list ↔ element ∈ list := by
  constructor
  · exact mem_of_mem_touch
  · intro member
    unfold touch
    split
    · rename_i first found
      have here := mem_of_find found
      rw [mem_cons, mem_without]
      by_cases same : key element = k
      · exact .inl (inj_on_of_nodup_map distinct member here.1 (same.trans here.2.symm))
      · exact .inr ⟨member, same⟩
    · exact member

theorem Distinct.touch : Distinct key (touch key k list) := by
  unfold Recency.touch
  split
  · rename_i first found
    rw [Distinct, map_cons, nodup_cons]
    refine ⟨?_, distinct.without⟩
    rw [(mem_of_find found).2, mem_map]
    rintro ⟨other, member, equal⟩
    exact (mem_without.mp member).2 equal
  · exact distinct

theorem Distinct.replace : Distinct key (replace key element list) := by
  rwa [Distinct, map_key_replace]

/-- The last element is the only one of its key. -/
theorem Distinct.find_dropLast (end_ : list.getLast? = some last) :
    find key k list.dropLast = if key last = k then none else find key k list := by
  have split : list = list.dropLast ++ [last] := (dropLast_append_getLast? last end_).symm
  rw [split, Distinct, map_append, nodup_append] at distinct
  split_ifs with here
  · refine find_eq_none.mpr fun element member equal => ?_
    exact distinct.2.2 (key element) (mem_map_of_mem member) (key last)
      (by simp) (equal.trans here.symm)
  · conv_rhs => rw [split]
    rw [find, find, find?_append, find?_cons_of_neg (by simpa using here)]
    simp

end

omit [DecidableEq κ] in
theorem Distinct.dropLast (distinct : Distinct key list) : Distinct key list.dropLast :=
  distinct.sublist ((dropLast_sublist list).map key)

end Liboffs.Library.Recency
