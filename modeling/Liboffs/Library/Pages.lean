import Mathlib.Data.List.Basic

/-!
# Lists on linked pages

A list is laid out on pages of a fixed capacity.  On every page but the last
one place is left for the link to the next page; the last page needs no link
and may use all of its places.

A reader that expects a link at the end of every full page cannot tell a last
page without free places from a page that goes on.  Whether the last page is
full depends on the length of the list alone.
-/

namespace Liboffs.Library.Pages

open List

universe u

variable {Item : Type u} {capacity : Nat}

/-- The pages of a list that is not empty. -/
inductive Paged (capacity : Nat) : List Item → List (List Item) → Prop where
  | last {items : List Item}
      (some : items ≠ [])
      (fits : items.length ≤ capacity) : Paged capacity items [items]
  | page {front rest : List Item} {pages : List (List Item)}
      (filled : front.length + 1 = capacity)
      (more : 2 ≤ rest.length)
      (behind : Paged capacity rest pages) : Paged capacity (front ++ rest) (front :: pages)

/-- Every list that is not empty has pages. -/
theorem exists_paged (room : 2 ≤ capacity) (items : List Item) (some : items ≠ []) :
    ∃ pages, Paged capacity items pages := by
  induction size : items.length using Nat.strongRecOn generalizing items with
  | ind length ih =>
    by_cases fits : items.length ≤ capacity
    · exact ⟨[items], .last some fits⟩
    · have long : 2 ≤ (items.drop (capacity - 1)).length := by
        rw [length_drop]
        omega
      have shorter : (items.drop (capacity - 1)).length < length := by
        rw [length_drop]
        omega
      have left : items.drop (capacity - 1) ≠ [] := by
        intro empty
        rw [empty] at long
        cases long
      obtain ⟨pages, behind⟩ := ih _ shorter _ left rfl
      have filled : (items.take (capacity - 1)).length + 1 = capacity := by
        rw [length_take]
        omega
      have whole := Paged.page filled long behind
      rw [take_append_drop] at whole
      exact ⟨_, whole⟩

namespace Paged

variable {items : List Item} {pages : List (List Item)}

section
variable (paged : Paged capacity items pages)
include paged

theorem flatten_eq : pages.flatten = items := by
  induction paged with
  | last => simp
  | page _ _ _ ih => rw [flatten_cons, ih]

theorem pages_ne_nil : pages ≠ [] := by
  cases paged with
  | last | page => exact cons_ne_nil _ _

theorem items_ne_nil : items ≠ [] := by
  cases paged with
  | last some => exact some
  | page filled more behind =>
    intro empty
    rw [(append_eq_nil_iff.mp empty).2] at more
    cases more

end

end Paged

/-- The lengths of the lists whose last page has no free place. -/
def LastFull (capacity total : Nat) : Prop :=
  ∃ linked, total = linked * (capacity - 1) + capacity

theorem lastFull_of_le (fits : total ≤ capacity) : LastFull capacity total ↔ total = capacity := by
  constructor
  · rintro ⟨linked, equal⟩
    omega
  · intro equal
    exact ⟨0, by omega⟩

/-- A page before the others leaves the last one as it is. -/
theorem lastFull_page (filled : front + 1 = capacity) (more : 2 ≤ rest) :
    LastFull capacity (front + rest) ↔ LastFull capacity rest := by
  constructor
  · rintro ⟨linked, equal⟩
    cases linked with
    | zero => omega
    | succ linked =>
      refine ⟨linked, ?_⟩
      rw [Nat.succ_mul] at equal
      omega
  · rintro ⟨linked, equal⟩
    refine ⟨linked + 1, ?_⟩
    rw [Nat.succ_mul]
    omega

/-- The length of a list tells whether its last page is full. -/
theorem Paged.lastFull_iff {items last : List Item} {pages : List (List Item)}
    (paged : Paged capacity items pages) (final : pages.getLast? = some last) :
    LastFull capacity items.length ↔ last.length = capacity := by
  induction paged with
  | last some fits =>
    cases final
    exact lastFull_of_le fits
  | @page front rest pages filled more behind ih =>
    rw [length_append, lastFull_page filled more]
    apply ih
    rw [getLast?_cons_of_ne_nil behind.pages_ne_nil] at final
    exact final

end Liboffs.Library.Pages
