import Mathlib.Data.List.Perm.Subperm
import Liboffs.Library.Runs
import Liboffs.Network.Wire

/-!
# The ring table

A node sorts the nodes that it knows by latency into rings, each with a list
of primary and a list of secondary members.  A node is entered when it
salutes, when a message of it is relayed, and when it is named in gossip; only
the last two look first whether it is there.  The ring of a measured latency
comes with the event.
-/

namespace Liboffs.Network

open Library.Runs List

/-- `ring_t`, with the ids of its nodes. -/
structure Ring where
  frozen : Bool
  primary : List NodeId
  secondary : List NodeId

/-- `ring_set_t`. -/
structure RingSet where
  primarySize : Nat
  secondarySize : Nat
  rings : List Ring

/-- `ring_set_create`, with `RING_K`, `RING_M` and `RING_MAX_RINGS`. -/
def ringSetCreate (primarySize secondarySize : Nat) : RingSet where
  primarySize := if 0 < primarySize then primarySize else 8
  secondarySize := if 0 < secondarySize then secondarySize else 4
  rings := replicate 10 ⟨false, [], []⟩

/-- The ids in a ring. -/
def Ring.ids (ring : Ring) : List NodeId := ring.primary ++ ring.secondary

/-- The ids in the whole table. -/
def RingSet.ids (set : RingSet) : List NodeId := set.rings.flatMap Ring.ids

/-- `ring_insert_primary`, and `ring_insert_secondary` where it fails. -/
def ringInsert (set : RingSet) (id : NodeId) (ring : Ring) : Ring :=
  if ring.frozen then
    ring
  else if ring.primary.length < set.primarySize then
    { ring with primary := ring.primary ++ [id] }
  else if ring.secondary.length < set.secondarySize then
    { ring with secondary := ring.secondary ++ [id] }
  else
    ring

/-- `ring_set_insert`; the null id is zero. -/
def ringSetInsert (set : RingSet) (id : NodeId) (index : Nat) : RingSet :=
  if id = 0 then set else { set with rings := set.rings.modify index (ringInsert set id) }

/-- `ring_set_find_by_id`; the null id matches nothing. -/
def ringSetFindById (set : RingSet) (id : NodeId) : Option NodeId :=
  if id = 0 then none else set.ids.find? (· == id)

/-- `ring_erase`, if a node is erased. -/
def ringErase (id : NodeId) (ring : Ring) : Option Ring :=
  if id = 0 then
    none
  else if id ∈ ring.primary then
    some { ring with primary := ring.primary.erase id }
  else if id ∈ ring.secondary then
    some { ring with secondary := ring.secondary.erase id }
  else
    none

/-- The loop of `ring_set_erase`. -/
def eraseFrom (id : NodeId) : List Ring → Option (List Ring)
  | [] => none
  | ring :: rings =>
    match ringErase id ring with
    | some erased => some (erased :: rings)
    | none => (eraseFrom id rings).map (ring :: ·)

/-- `ring_set_erase`, if it returns true. -/
def ringSetErase (set : RingSet) (id : NodeId) : Option RingSet :=
  (eraseFrom id set.rings).map fun rings => { set with rings }

/-- The ring of `ring_set_promote_secondary`. -/
def ringPromote (ring : Ring) : Ring :=
  match ring.secondary with
  | [] => ring
  | promoted :: rest => { ring with primary := ring.primary ++ [promoted], secondary := rest }

/-- What happens to a ring table; gossip comes with the ring of a cached latency. -/
inductive RingEvent where
  | salutation (id : NodeId)
  | relayed (id : NodeId)
  | gossip (id : NodeId) (cached : Option Nat) (connected : Bool)
  | promote (index : Nat)
  | erase (id : NodeId)

/--
The handlers of a salutation and of a relayed message, and
`network_add_node_to_ring`, which only pings a connected node.
-/
def ringStep (set : RingSet) : RingEvent → Option RingSet
  | .salutation id => some (ringSetInsert set id 0)
  | .relayed id =>
    some (if (ringSetFindById set id).isNone then ringSetInsert set id 0 else set)
  | .gossip id cached connected =>
    some (if id ≠ 0 ∧ (ringSetFindById set id).isNone then
      match cached, connected with
      | some index, _ => ringSetInsert set id index
      | none, true => set
      | none, false => ringSetInsert set id 0
    else
      set)
  | .promote index => some { set with rings := set.rings.modify index ringPromote }
  | .erase id => some ((ringSetErase set id).getD set)

/-- A ring has no more members than its lists may have. -/
def RingSet.Holds (set : RingSet) (ring : Ring) : Prop :=
  ring.primary.length ≤ set.primarySize ∧ ring.secondary.length ≤ set.secondarySize

/-- The table is a set of ids within its bounds, and what is erased is gone. -/
structure RingSet.Proper (set : RingSet) : Prop where
  once : set.ids.Nodup
  bounded : ∀ ring ∈ set.rings, set.Holds ring
  nonnull : 0 ∉ set.ids
  gone : ∀ id rest, ringSetErase set id = some rest → ringSetFindById rest id = none

/-- A salutation is of a new node, and a promotion fills a free place. -/
def RingSet.Fits (set : RingSet) : RingEvent → Prop
  | .salutation id => id ∉ set.ids
  | .promote index => ∀ ring, set.rings[index]? = some ring →
      ring.primary.length < set.primarySize ∨ ring.secondary = []
  | _ => True

variable {set : RingSet} {id : NodeId}

theorem not_mem_of_findById (nonnull : id ≠ 0) (missing : ringSetFindById set id = none) :
    id ∉ set.ids := by
  intro present
  simp only [ringSetFindById, nonnull, if_false, find?_eq_none] at missing
  exact missing id present (by simp)

theorem perm_of_ringErase (done : ringErase id ring = some erased) :
    ring.ids.Perm (id :: erased.ids) ∧ erased.primary.length ≤ ring.primary.length ∧
      erased.secondary.length ≤ ring.secondary.length := by
  simp only [ringErase] at done
  split at done
  · cases done
  · split at done
    · rename_i member
      cases done
      exact ⟨(perm_cons_erase member).append_right _, length_erase_le, Nat.le_refl _⟩
    · split at done
      · rename_i member
        cases done
        refine ⟨?_, Nat.le_refl _, length_erase_le⟩
        exact ((perm_cons_erase member).append_left _).trans perm_middle
      · cases done

/-- An erased id leaves one place, and no ring grows. -/
theorem perm_of_eraseFrom {rings left : List Ring} (done : eraseFrom id rings = some left) :
    (rings.flatMap Ring.ids).Perm (id :: left.flatMap Ring.ids) ∧
      ((∀ ring ∈ rings, set.Holds ring) → ∀ ring ∈ left, set.Holds ring) := by
  induction rings generalizing left with
  | nil => cases done
  | cons ring rings ih =>
    simp only [eraseFrom] at done
    split at done
    · rename_i erased found
      cases done
      have less := perm_of_ringErase found
      refine ⟨less.1.append_right _, fun bounded => ?_⟩
      rw [forall_mem_cons] at bounded ⊢
      exact ⟨⟨less.2.1.trans bounded.1.1, less.2.2.trans bounded.1.2⟩, bounded.2⟩
    · rcases Option.map_eq_some_iff.mp done with ⟨rest, later, rfl⟩
      refine ⟨((ih later).1.append_left _).trans perm_middle, fun bounded => ?_⟩
      rw [forall_mem_cons] at bounded ⊢
      exact ⟨bounded.1, (ih later).2 bounded.2⟩

/-- Once each id occurs once, what is erased is not found. -/
theorem RingSet.Proper.of_once (once : set.ids.Nodup) (bounded : ∀ ring ∈ set.rings, set.Holds ring)
    (nonnull : 0 ∉ set.ids) : set.Proper where
  once := once
  bounded := bounded
  nonnull := nonnull
  gone id rest erased := by
    rcases Option.map_eq_some_iff.mp erased with ⟨left, done, rfl⟩
    have distinct := (@perm_of_eraseFrom set _ _ _ done).1.nodup once
    simp only [ringSetFindById]
    split
    · rfl
    · rw [find?_eq_none]
      rintro found member same
      rw [eq_of_beq same] at member
      exact (nodup_cons.mp distinct).1 member

/-- The ids after one ring has changed. -/
theorem ids_modify (changed : ∀ ring, (change ring).ids.Subperm (added ++ ring.ids)) (index : Nat)
    (rings : List Ring) : ((rings.modify index change).flatMap Ring.ids).Subperm
      (added ++ rings.flatMap Ring.ids) := by
  induction rings generalizing index with
  | nil => simp
  | cons ring rings ih =>
    cases index with
    | zero =>
      have grown := (subperm_append_right (rings.flatMap Ring.ids)).mpr (changed ring)
      rwa [append_assoc] at grown
    | succ index =>
      exact ((subperm_append_left ring.ids).mpr (ih index)).trans
        (perm_append_comm_assoc ..).subperm

/-- One ring changes within its bounds, by ids that are new. -/
theorem RingSet.Proper.modify (proper : set.Proper) {index : Nat} {change : Ring → Ring}
    {added : List NodeId} (changed : ∀ ring, (change ring).ids.Subperm (added ++ ring.ids))
    (fresh : (added ++ set.ids).Nodup) (nonnull : 0 ∉ added)
    (holds : ∀ ring, set.rings[index]? = some ring → set.Holds ring → set.Holds (change ring)) :
    RingSet.Proper { set with rings := set.rings.modify index change } := by
  have grown := ids_modify changed index set.rings
  apply of_once
  · rcases grown with ⟨same, reordered, part⟩
    exact reordered.nodup (part.nodup fresh)
  · intro ring member
    rcases mem_iff_getElem?.mp member with ⟨place, found⟩
    rw [getElem?_modify] at found
    rcases Option.map_eq_some_iff.mp found with ⟨before, there, rfl⟩
    have bounded := proper.bounded before (mem_of_getElem? there)
    split
    · rename_i same
      exact holds before (same ▸ there) bounded
    · exact bounded
  · intro member
    exact (mem_append.mp (grown.subset member)).elim nonnull proper.nonnull

theorem RingSet.Proper.insert (proper : set.Proper) (fresh : id ∉ set.ids) (index : Nat) :
    (ringSetInsert set id index).Proper := by
  simp only [ringSetInsert]
  split
  · exact proper
  · rename_i nonnull
    refine @RingSet.Proper.modify _ proper _ _ [id] ?_ ?_ ?_ ?_
    · intro ring
      simp only [ringInsert]
      split
      · exact (sublist_cons_self ..).subperm
      · split
        · simpa [Ring.ids] using perm_middle.subperm
        · split
          · rw [Ring.ids, ← append_assoc]
            exact (perm_append_singleton ..).subperm
          · exact (sublist_cons_self ..).subperm
    · exact nodup_cons.mpr ⟨fresh, proper.once⟩
    · simpa using Ne.symm nonnull
    · intro ring _ bounded
      simp only [ringInsert]
      split
      · exact bounded
      · split
        · rename_i room
          exact ⟨by simpa using Nat.succ_le_of_lt room, bounded.2⟩
        · split
          · rename_i room
            exact ⟨bounded.1, by simpa using Nat.succ_le_of_lt room⟩
          · exact bounded

/-- One event that fits keeps the table proper. -/
theorem RingSet.Proper.step {event : RingEvent} {next : RingSet} (proper : set.Proper)
    (fits : set.Fits event) (stepped : ringStep set event = some next) : next.Proper := by
  cases event with
  | salutation id =>
    cases stepped
    exact proper.insert fits 0
  | relayed id =>
    cases stepped
    split
    · rename_i missing
      by_cases null : id = 0
      · simpa [ringSetInsert, null] using proper
      · exact proper.insert (not_mem_of_findById null (Option.isNone_iff_eq_none.mp missing)) 0
    · exact proper
  | gossip id cached connected =>
    cases stepped
    split
    · rename_i missing
      have fresh := not_mem_of_findById missing.1 (Option.isNone_iff_eq_none.mp missing.2)
      split
      · exact proper.insert fresh _
      · exact proper
      · exact proper.insert fresh 0
    · exact proper
  | promote index =>
    cases stepped
    refine @RingSet.Proper.modify _ proper _ _ [] ?_ ?_ ?_ ?_
    · intro ring
      simp only [ringPromote]
      split
      · exact Subperm.refl _
      · rename_i promoted rest waiting
        simp [Ring.ids, waiting, Subperm.refl]
    · exact proper.once
    · simp
    · intro ring there bounded
      simp only [ringPromote]
      split
      · exact bounded
      · rename_i promoted rest waiting
        have room := fits ring there
        simp only [waiting, reduceCtorEq, or_false] at room
        have length := bounded.2
        rw [waiting, length_cons] at length
        exact ⟨by simpa using Nat.succ_le_of_lt room, Nat.le_of_succ_le length⟩
  | erase id =>
    cases stepped
    cases erased : ringSetErase set id with
    | none => exact proper
    | some rest =>
      rcases Option.map_eq_some_iff.mp erased with ⟨left, done, rfl⟩
      have less := @perm_of_eraseFrom set _ _ _ done
      apply of_once
      · exact (nodup_cons.mp (less.1.nodup proper.once)).2
      · exact less.2 proper.bounded
      · exact fun member => proper.nonnull (less.1.symm.subset (mem_cons_of_mem _ member))

/-- The table is proper in every state of a run in which every event fits. -/
theorem ring_set_stays_proper (primarySize secondarySize : Nat) (events : List RingEvent)
    (fits : EachStep ringStep RingSet.Fits (ringSetCreate primarySize secondarySize) events) :
    Throughout ringStep RingSet.Proper (ringSetCreate primarySize secondarySize) events := by
  apply fits.throughout (fun _ _ _ proper fit stepped => proper.step fit stepped) (fun _ => id)
  apply RingSet.Proper.of_once
  · simp [ringSetCreate, RingSet.ids, Ring.ids]
  · intro ring member
    rw [eq_of_mem_replicate member]
    exact ⟨Nat.zero_le _, Nat.zero_le _⟩
  · simp [ringSetCreate, RingSet.ids, Ring.ids]

theorem first_salutation_is_proper : Throughout ringStep RingSet.Proper (ringSetCreate 8 4)
    [.salutation 5] :=
  ring_set_stays_proper 8 4 _ fun _ _ =>
    ⟨by simp [RingSet.Fits, ringSetCreate, RingSet.ids, Ring.ids], trivial⟩

/-- A node that connects again is entered again. -/
theorem reconnected_node_is_entered_twice : ¬ Throughout ringStep RingSet.Proper
    (ringSetCreate 8 4) [.salutation 5, .salutation 5] := by
  intro proper
  have twice : RingSet.Proper _ := (proper.2 _ rfl).2 _ rfl
  exact absurd twice.once (by decide)

end Liboffs.Network
