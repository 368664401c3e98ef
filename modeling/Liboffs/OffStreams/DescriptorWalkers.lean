import Liboffs.OffStreams.DescriptorRoundTrip
import Liboffs.OffStreams.RecyclerRecipe
import Liboffs.OffStreams.RepresentationActor

/-!
# What the walkers see of a written descriptor

The representation actor and the recycler walk the chain that the writeable
descriptor has put.  Both see the hashes of the tuples as long as the last
page has a free place; from a full page they take the last hash for a link.
The representation actor also gives up where the link to a block of the chain
was met before as a hash of the file, since it takes this for a cycle.
-/

namespace Liboffs.OffStreams

open BlockCache Library Library.ByteOrder Library.Pages Library.StoreWalks List

/-- Hashes that are not of zeros. -/
def Nonzero (keys : List Bytes) : Prop :=
  ∀ key ∈ keys, isZeroBuffer key = false

variable {keys : List Bytes}

theorem Nonzero.filter_eq (nonzero : Nonzero keys) :
    (keys.filter fun key => ¬ isZeroBuffer key) = keys := by
  apply filter_eq_self.mpr
  intro key among
  simp [nonzero key among]

/-- The bytes of the last block of a chain. -/
def lastData (type : BlockSize) (keys : List Bytes) : Bytes :=
  keys.flatten ++ List.replicate (type.bytes - keys.flatten.length) 0

variable {link data : Bytes}

section
variable {type : BlockSize} {keys : List Bytes}

theorem length_lastData (sized : Keys keys) (fits : keys.length ≤ hashesPerBlock type) :
    (lastData type keys).length = type.bytes := by
  have length := sized.length_flatten
  have room := hashesPerBlock_mul_le type
  rw [lastData, length_append, length_replicate]
  omega

theorem places_page (sized : Keys keys) (filled : keys.length + 1 = hashesPerBlock type)
    (whole : (keys.flatten ++ link).length = type.bytes) :
    Places type (keys.flatten ++ link) keys :=
  ⟨whole, sized, filled, link, rfl⟩

/-- On a last page with a free place, the places behind the hashes are zeros. -/
theorem places_last (sized : Keys keys) (room : keys.length < hashesPerBlock type) :
    Places type (lastData type keys) (keys ++ List.replicate
        (hashesPerBlock type - 1 - keys.length) zeroKey) := by
  have length := sized.length_flatten
  have fits := hashesPerBlock_mul_le type
  have zeros : (List.replicate (hashesPerBlock type - 1 - keys.length) zeroKey).flatten =
      List.replicate ((hashesPerBlock type - 1 - keys.length) * 32) 0 :=
    flatten_replicate_replicate
  refine ⟨length_lastData sized room.le, sized.append ?_, ?_,
    List.replicate (type.bytes - (hashesPerBlock type - 1) * 32) 0, ?_⟩
  · intro key among
    rw [(mem_replicate.mp among).2]
    rfl
  · rw [length_append, length_replicate]
    omega
  · rw [lastData, flatten_append, zeros, append_assoc, replicate_append_replicate]
    congr 2
    omega

theorem filter_last (nonzero : Nonzero keys) (count : Nat) :
    ((keys ++ List.replicate count zeroKey).filter fun key => ¬ isZeroBuffer key) = keys := by
  rw [filter_append, nonzero.filter_eq, filter_eq_nil_iff.mpr, append_nil]
  intro key among
  rw [(mem_replicate.mp among).2]
  decide

/-- A last page with a free place has no link. -/
theorem blockLink_last (sized : Keys keys) (room : keys.length < hashesPerBlock type) :
    blockLink type (lastData type keys) = none := by
  have length := sized.length_flatten
  have fits := hashesPerBlock_mul_le type
  have split : lastData type keys = (keys.flatten ++ List.replicate
        (type.bytes - keys.flatten.length - 32) 0) ++
        List.replicate 32 0 := by
    rw [lastData, append_assoc, replicate_append_replicate]
    congr 2
    omega
  have whole := length_lastData sized room.le
  rw [split] at whole ⊢
  rw [blockLink_append length_replicate whole, if_pos (by decide)]

/-- On a full last page the last hash is at the place of the link. -/
theorem places_full (sized : Keys (keys ++ [key]))
    (full : (keys ++ [key]).length = hashesPerBlock type) :
    Places type (lastData type (keys ++ [key])) keys := by
  refine ⟨length_lastData sized full.le, ?_, ?_, ?_⟩
  · exact sized.of_append.1
  · rw [← full]
    simp
  · rw [lastData, flatten_append, append_assoc]
    exact ⟨_, rfl⟩

end

theorem eq_of_singleton_eq_snoc (split : [only] = front ++ [last]) : front = [] ∧ only = last := by
  cases front with
  | nil => exact ⟨rfl, by simpa using split⟩
  | cons => simp at split

theorem blockLink_of_nonzero (size : link.length = 32) (whole : (front ++ link).length = type.bytes)
    (nonzero : isZeroBuffer link = false) : blockLink type (front ++ link) = some link := by
  rw [blockLink_append size whole, nonzero]
  rfl

theorem split_cons_of_ne_nil (nonempty : rest ≠ []) (split : first :: rest = front ++ [last]) :
    ∃ more, front = first :: more ∧ rest = more ++ [last] := by
  cases front with
  | nil => exact absurd (List.cons.inj split).2 nonempty
  | cons _ more => exact ⟨more, by rw [(List.cons.inj split).1], (List.cons.inj split).2⟩

/-- Pages that a store has under some hashes, each linked to the next. -/
inductive StoredPages (store : Bytes → Option Bytes) (type : BlockSize) :
    List (List Bytes) → List Bytes → Prop where
  | last {keys : List Bytes} {hash : Bytes}
      (fits : keys.length ≤ hashesPerBlock type)
      (sized : Keys keys)
      (stored : store hash = some (lastData type keys)) : StoredPages store type [keys] [hash]
  | page {keys : List Bytes} {hash link : Bytes}
      {pages : List (List Bytes)} {hashes : List Bytes}
      (filled : keys.length + 1 = hashesPerBlock type)
      (sized : Keys keys)
      (size : link.length = 32)
      (whole : (keys.flatten ++ link).length = type.bytes)
      (stored : store hash = some (keys.flatten ++ link))
      (behind : StoredPages store type pages (link :: hashes)) :
      StoredPages store type (keys :: pages) (hash :: link :: hashes)

namespace StoredPages

variable {store : Bytes → Option Bytes} {type : BlockSize}
  {pages : List (List Bytes)} {hashes : List Bytes}

theorem pages_ne_nil (stored : StoredPages store type pages hashes) : pages ≠ [] := by
  cases stored <;> exact cons_ne_nil _ _

/-- The last page and its hash. -/
theorem exists_last (stored : StoredPages store type pages hashes) :
    ∃ front keys before hash, pages = front ++ [keys] ∧ hashes = before ++ [hash] ∧
      Keys keys ∧ keys.length ≤ hashesPerBlock type ∧ store hash = some (lastData type keys) := by
  induction stored with
  | @last keys hash fits sized stored => exact ⟨[], keys, [], hash, rfl, rfl, sized, fits, stored⟩
  | @page keys hash link pages hashes _ _ _ _ _ _ ih =>
    obtain ⟨front, final, before, last, split, split', rest⟩ := ih
    refine ⟨keys :: front, final, hash :: before, last, ?_, ?_, rest⟩
    · rw [split]
      rfl
    · rw [split']
      rfl

end StoredPages

variable {pages : List (List Bytes)}

theorem HoldsChain.storedPages
    (holds : HoldsChain store (chainOf hashData (pageChunks type.bytes pages)))
    (paged : Paged (hashesPerBlock type) keys pages) (sized : Keys keys)
    (linkable : type ≠ .nano ∨ keys.length ≤ hashesPerBlock type) :
    StoredPages store type pages ((chainOf hashData (pageChunks type.bytes pages)).map
        fun block => block.hash.bytes) := by
  induction paged with
  | @last keys more fits =>
    refine .last fits sized ?_
    have stored := holds.last rfl
    exact stored
  | @page front rest pages filled more behind ih =>
    obtain ⟨first, second⟩ := sized.of_append
    have large := linkable.resolve_right (by rw [length_append]; omega)
    obtain ⟨next, named, chain⟩ := chainOf_page hashData behind.pages_ne_nil
    rw [chain] at holds ⊢
    have stored := holds _ mem_cons_self
    have later := ih (fun block among => holds block (mem_cons_of_mem _ among)) second (.inl large)
    rw [chainHash] at named
    cases chained : chainOf hashData (pageChunks type.bytes pages) with
    | nil =>
      rw [chained] at named
      cases named
    | cons block blocks =>
      rw [chained] at named later
      cases named
      refine .page filled first block.hash.size ?_ stored later
      have length := first.length_flatten
      have full := hashesPerBlock_mul_eq large
      have bytes := block.hash.size
      rw [length_append]
      change front.flatten.length + block.hash.bytes.length = _
      omega

/-- The blocks that a representation actor has asked for. -/
def representationRequests (rep : RepresentationActor) : List Bytes :=
  rep.sent.filterMap fun
    | .blockCacheGet hash => some hash
    | _ => none

def representationAnswer (rep : RepresentationActor) (hash : Bytes)
    (data : Option Bytes) : Option RepresentationActor :=
  some (representationActorDispatch rep (.cacheGetResult hash data))

/-- The replies of a collecting walk: the result and the hashes. -/
def collectReplies (rep : RepresentationActor) : List (Int × List Bytes) :=
  rep.sent.filterMap fun
    | .collectResult result _ hashes => some (result, hashes)
    | _ => none

/-- No link is among the hashes of the pages before it, nor among those of their blocks. -/
def LinksFresh : List Bytes → List (List Bytes) → List Bytes → Prop
  | seen, keys :: pages, hash :: link :: hashes =>
    link ∉ meetBlock seen keys hash ∧ LinksFresh (meetBlock seen keys hash) pages (link :: hashes)
  | _, _, _ => True

variable {front : List (List Bytes)} {before : List Bytes} {last : Bytes}

section
variable {store : Bytes → Option Bytes} {type : BlockSize}

theorem representationRequests_of_sent (sent : rep.sent = requested.map .blockCacheGet ++ effects)
    (silent : ∀ hash, .blockCacheGet hash ∉ effects) : representationRequests rep = requested := by
  have none : (effects.filterMap fun
      | RepresentationEffect.blockCacheGet hash => some hash
      | _ => none) = [] := by
    apply filterMap_eq_nil_iff.mpr
    intro effect among
    split
    · rename_i hash
      exact absurd among (silent hash)
    · rfl
  rw [representationRequests, sent, filterMap_append, none, append_nil, filterMap_map]
  exact filterMap_some

/-- A collecting walk that waits for the block under a hash. -/
structure CollectsAt (type : BlockSize) (seen requested : List Bytes)
    (hash : Bytes) (walk : Walk RepresentationActor) : Prop where
  collecting : CollectWalk type seen (requested ++ [hash]) walk.state
  answered : walk.answered = requested.length

namespace CollectsAt

variable {seen requested : List Bytes} {hash : Bytes} {walk : Walk RepresentationActor}

section
variable (waits : CollectsAt type seen requested hash walk)
include waits

theorem step (stored : store hash = some data) :
    answerOldest representationRequests representationAnswer store walk =
      some ⟨repGetResult walk.state hash (some data), requested.length + 1⟩ := by
  have asked : representationRequests walk.state = requested ++ [hash] := by
    refine representationRequests_of_sent ?_ fun _ => not_mem_nil
    rw [waits.collecting.sent, append_nil]
  rw [answerOldest_eq asked waits.answered, stored]
  rfl

section
variable {keys : List Bytes} (places : Places type data keys) (stored : store hash = some data)
include places stored

/-- A page with a link that has not been met. -/
theorem page (linked : blockLink type data = some link) (new : link ∉ meetBlock seen keys hash) :
    ∃ later, CollectsAt type (meetBlock seen keys hash) (requested ++ [hash]) link later ∧ ∀ final,
        Settles representationRequests representationAnswer store walk final ↔
          Settles representationRequests representationAnswer store later final := by
  refine ⟨_, ⟨waits.collecting.getResult_next places hash linked new, ?_⟩,
    settles_of_answer (waits.step stored)⟩
  simp

/-- A page with a link that has been met. -/
theorem cycle (linked : blockLink type data = some link) (known : link ∈ meetBlock seen keys hash) :
    ∃ final hashes, Settles representationRequests representationAnswer store walk final ∧
      collectReplies final = [(-3, hashes)] := by
  obtain ⟨touched, hashes, sent⟩ := waits.collecting.getResult_cycle places hash linked known
  refine ⟨_, hashes, (settles_of_answer (waits.step stored) _).mpr
    ((settles_of_answered ?_).mpr rfl), ?_⟩
  · exact unanswered_of_silent (representationRequests_of_sent sent (by simp))
  · rw [collectReplies, sent]
    simp

/-- A page without a link. -/
theorem finish (final : blockLink type data = none) :
    ∃ last, Settles representationRequests representationAnswer store walk last ∧
      collectReplies last = [(0, meetBlock seen keys hash)] := by
  obtain ⟨touched, sent⟩ := waits.collecting.getResult_end places hash final
  refine ⟨_, (settles_of_answer (waits.step stored) _).mpr ((settles_of_answered ?_).mpr rfl), ?_⟩
  · exact unanswered_of_silent (representationRequests_of_sent sent (by simp))
  · rw [collectReplies, sent]
    simp

end

end

end CollectsAt

variable {pages : List (List Bytes)} {hash : Bytes} {hashes : List Bytes}
  {seen requested : List Bytes} {walk : Walk RepresentationActor}

/-- With fresh links the walk comes to the last page. -/
theorem StoredPages.collect_last (stored : StoredPages store type pages (hash :: hashes))
    (keyed : ∀ keys ∈ pages, Nonzero keys) (linked : Nonzero hashes)
    (fresh : LinksFresh seen pages (hash :: hashes))
    (waits : CollectsAt type seen requested hash walk) (split : pages = front ++ [keys])
    (split' : hash :: hashes = before ++ [last]) :
    ∃ seen' requested' later, CollectsAt type seen' requested' last later ∧ (∀ final,
        Settles representationRequests representationAnswer store walk final ↔
          Settles representationRequests representationAnswer store later final) ∧
      ∀ other, other ∈ seen' ↔ other ∈ seen ∨ other ∈ front.flatten ∨ other ∈ before := by
  generalize all : hash :: hashes = chain at stored
  induction stored generalizing hash hashes seen requested walk front before with
  | @last page hash' fits sized stored =>
    cases all
    obtain ⟨rfl, rfl⟩ := eq_of_singleton_eq_snoc split
    obtain ⟨rfl, rfl⟩ := eq_of_singleton_eq_snoc split'
    exact ⟨seen, requested, walk, waits, fun _ => .rfl, by simp⟩
  | @page page hash' link later hashes' filled sized size whole stored behind ih =>
    cases all
    obtain ⟨new, fresh'⟩ := fresh
    have first : Nonzero page := keyed page mem_cons_self
    have link_eq := blockLink_of_nonzero size whole (linked link mem_cons_self)
    obtain ⟨next, waits', same⟩ := waits.page (places_page sized filled whole) stored link_eq new
    obtain ⟨front, rfl, rest⟩ := split_cons_of_ne_nil behind.pages_ne_nil split
    obtain ⟨before, rfl, rest'⟩ := split_cons_of_ne_nil (cons_ne_nil _ _) split'
    obtain ⟨seen', requested', final, waits'', same', members⟩ :=
      ih (fun keys among => keyed keys (mem_cons_of_mem _ among))
        (fun key among => linked key (mem_cons_of_mem _ among)) fresh' waits' rest rest' rfl
    refine ⟨seen', requested', final, waits'', fun final => (same final).trans (same' final), ?_⟩
    intro other
    rw [members, mem_meetBlock, flatten_cons, mem_append, mem_cons]
    have kept : other ∈ page → ¬ isZeroBuffer other := by
      intro among
      simp [first other among]
    tauto

/-- A link that has been met ends the walk. -/
theorem StoredPages.collect_cycle (stored : StoredPages store type pages (hash :: hashes))
    (linked : Nonzero hashes) (known : ¬ LinksFresh seen pages (hash :: hashes))
    (waits : CollectsAt type seen requested hash walk) :
    ∃ final collected, Settles representationRequests representationAnswer store walk final ∧
      collectReplies final = [(-3, collected)] := by
  generalize all : hash :: hashes = chain at stored
  induction stored generalizing hash hashes seen requested walk with
  | last =>
    cases all
    exact absurd trivial known
  | @page page hash' link later hashes' filled sized size whole stored behind ih =>
    cases all
    have link_eq := blockLink_of_nonzero size whole (linked link mem_cons_self)
    have places := places_page sized filled whole
    by_cases met : link ∈ meetBlock seen page hash'
    · exact waits.cycle places stored link_eq met
    · obtain ⟨next, waits', same⟩ := waits.page places stored link_eq met
      obtain ⟨final, collected, settles, replies⟩ := ih
        (fun key among => linked key (mem_cons_of_mem _ among))
        (fun fresh => known ⟨met, fresh⟩) waits' rfl
      exact ⟨final, collected, (same final).mpr settles, replies⟩

end

section
variable {hashData : Bytes → Hash} {store : Bytes → Option Bytes} {type : BlockSize}

/-- A recycler that waits for the block under a hash. -/
structure LoadsAt (type : BlockSize) (loaded requested : List Bytes)
    (hash : Bytes) (walk : Walk RecyclerRecipe) : Prop where
  loading : LoadWalk type loaded (requested ++ [hash]) walk.state
  answered : walk.answered = requested.length

namespace LoadsAt

variable {loaded requested : List Bytes} {hash : Bytes} {walk : Walk RecyclerRecipe}

section
variable (waits : LoadsAt type loaded requested hash walk) {keys : List Bytes}
  (places : Places type data keys) (stored : store hash = some data)
include waits places stored

theorem page (linked : blockLink type data = some link) :
    ∃ later, LoadsAt type (loaded ++ keys.filter fun key => ¬ isZeroBuffer key)
        (requested ++ [hash]) link later ∧
      ∀ last, EndsAt recyclerRequests (recyclerAnswer hashData) store walk last ↔
          EndsAt recyclerRequests (recyclerAnswer hashData) store later last := by
  obtain ⟨later, answer, loading⟩ := waits.loading.answer_next hashData places hash linked
  refine ⟨⟨later, requested.length + 1⟩, ⟨loading, by simp⟩, ?_⟩
  apply endsAt_of_answer
  · rw [answerOldest_eq waits.loading.asked waits.answered, stored, answer]
    rfl
  · rw [unanswered, loading.asked]
    simp

/-- The block without a link is the last one, and completes the descriptor. -/
theorem finish (final : blockLink type data = none) :
    ∃ descriptor, Completes hashData walk.state hash data descriptor ∧
      unanswered recyclerRequests walk = [hash] ∧
      (∀ last, EndsAt recyclerRequests (recyclerAnswer hashData) store walk last ↔ walk = last) ∧
      (descriptor.descriptor ++ descriptor.endcap.toList).Perm
        (loaded ++ keys.filter fun key => ¬ isZeroBuffer key) := by
  obtain ⟨descriptor, completes, asked, same⟩ :=
    waits.loading.answer_end hashData places hash final
  refine ⟨descriptor, completes, ?_, ?_, same⟩
  · rw [unanswered, waits.loading.asked, waits.answered]
    simp
  · have step : answerOldest recyclerRequests (recyclerAnswer hashData) store
        walk = some ⟨servePull descriptor, requested.length + 1⟩ := by
      rw [answerOldest_eq waits.loading.asked waits.answered, stored, completes.1]
      rfl
    exact fun last => endsAt_of_last step (unanswered_of_silent asked)

end

end LoadsAt

/-- The walk comes to the last page. -/
theorem StoredPages.load_last {hash : Bytes} {hashes : List Bytes} {loaded requested : List Bytes}
    {walk : Walk RecyclerRecipe} (stored : StoredPages store type pages (hash :: hashes))
    (keyed : ∀ keys ∈ pages, Nonzero keys) (linked : Nonzero hashes)
    (waits : LoadsAt type loaded requested hash walk) (split : pages = front ++ [keys])
    (split' : hash :: hashes = before ++ [last]) :
    ∃ requested' later, LoadsAt type (loaded ++ front.flatten) requested' last later ∧ ∀ final,
        EndsAt recyclerRequests (recyclerAnswer hashData) store walk final ↔
          EndsAt recyclerRequests (recyclerAnswer hashData) store later final := by
  generalize all : hash :: hashes = chain at stored
  induction stored generalizing hash hashes loaded requested walk front before with
  | @last page hash' fits sized stored =>
    cases all
    obtain ⟨rfl, rfl⟩ := eq_of_singleton_eq_snoc split
    obtain ⟨rfl, rfl⟩ := eq_of_singleton_eq_snoc split'
    rw [flatten_nil, append_nil]
    exact ⟨requested, walk, waits, fun _ => .rfl⟩
  | @page page hash' link later hashes' filled sized size whole stored behind ih =>
    cases all
    have first : Nonzero page := keyed page mem_cons_self
    have link_eq := blockLink_of_nonzero size whole (linked link mem_cons_self)
    obtain ⟨next, waits', same⟩ := waits.page (places_page sized filled whole) stored link_eq
    rw [first.filter_eq] at waits'
    obtain ⟨front, rfl, rest⟩ := split_cons_of_ne_nil behind.pages_ne_nil split
    obtain ⟨before, rfl, rest'⟩ := split_cons_of_ne_nil (cons_ne_nil _ _) split'
    obtain ⟨requested', final, waits'', same'⟩ := ih
      (fun keys among => keyed keys (mem_cons_of_mem _ among))
      (fun key among => linked key (mem_cons_of_mem _ among)) waits' rest rest' rfl
    rw [append_assoc, ← flatten_cons] at waits''
    exact ⟨requested', final, waits'', fun final => (same final).trans (same' final)⟩

end

end Liboffs.OffStreams
