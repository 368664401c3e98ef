import Liboffs.OffStreams.DescriptorWalkers

/-!
# The walkers and the writer agree

What the representation actor collects and what the recycler loads is compared
with the tuples that were written.  The comparison is over all stores that
have the representation: the blocks of the chain are as they were put, and
those of the tuples may be any.
-/

namespace Liboffs.OffStreams

open BlockCache Library Library.ByteOrder Library.Pages Library.StoreWalks List Function

/-- The collecting walk ends well and delivers the hashes. -/
def Collects (store : Bytes → Option Bytes) (type : BlockSize)
    (hasRegistry hasNetwork : Bool) (hash : Bytes) (keys hashes : List Bytes) : Prop :=
  ∃ final collected,
    Settles representationRequests representationAnswer store ⟨representationActorDispatch
        (representationActorCreate type hasRegistry hasNetwork hash .collect true) .pull, 0⟩ final ∧
    collectReplies final = [(0, collected)] ∧
    ∀ other, other ∈ collected ↔ other ∈ keys ∨ other ∈ hashes

/--
The last block of the walk completes the descriptor of the recycler, which then has the hashes: those
that it will serve, and the endcap.
-/
def Recycles (hashData : Bytes → Hash) (store : Bytes → Option Bytes)
    (recipe : RecyclerRecipe) (keys : List Bytes) : Prop :=
  ∃ last hash data loaded,
    EndsAt recyclerRequests (recyclerAnswer hashData) store ⟨recyclerPull recipe, 0⟩ last ∧
    unanswered recyclerRequests last = [hash] ∧ store hash = some data ∧
    Completes hashData last.state hash data loaded ∧
    (loaded.descriptor ++ loaded.endcap.toList).Perm keys

theorem collectsAt_start (type : BlockSize) (hasRegistry hasNetwork : Bool) (hash : Bytes) :
    CollectsAt type [] [] hash ⟨representationActorDispatch
        (representationActorCreate type hasRegistry hasNetwork hash .collect true) .pull, 0⟩ :=
  ⟨⟨rfl, rfl, rfl, rfl, rfl, rfl, rfl, rfl⟩, rfl⟩

/-- A recycler of one representation. -/
def recyclerOf (type : BlockSize) (tupleSize : Nat) (fileHash : Option Hash)
    (hash : Bytes) (hasRegistry hasNetwork putIsEphemeral : Bool)
    (overrideMode : RecycleEphemeral) : RecyclerRecipe :=
  recyclerRecipeCreate [⟨type, tupleSize, fileHash.map Hash.bytes, 0, some hash⟩]
    hasRegistry hasNetwork putIsEphemeral overrideMode

theorem loadsAt_start (type : BlockSize) (tupleSize : Nat) (fileHash : Option Hash) (hash : Bytes)
    (hasRegistry hasNetwork putIsEphemeral : Bool) (overrideMode : RecycleEphemeral) :
    LoadsAt type [] [] hash ⟨recyclerPull (recyclerOf type tupleSize fileHash hash hasRegistry
        hasNetwork putIsEphemeral overrideMode), 0⟩ := by
  have pad : ((fileHash.map Hash.bytes).map length).getD 32 = 32 := by
    cases fileHash with
    | none => rfl
    | some hash => exact hash.size
  refine ⟨⟨⟨_, rfl, rfl⟩, rfl, rfl, rfl, pad, ?_, rfl, .refl _, rfl, ?_⟩, rfl⟩
  · change type.bytes / _ * _ = _
    rw [pad]
  · cases hasRegistry <;> rfl

variable {front : List (List Bytes)} {page keys : List Bytes} {key link : Bytes}

section
variable {hashData : Bytes → Hash} {store : Bytes → Option Bytes}
  {type : BlockSize} {pages : List (List Bytes)} {hash : Bytes} {hashes : List Bytes}
  {hasRegistry hasNetwork : Bool}

section
variable (stored : StoredPages store type pages (hash :: hashes))
include stored

theorem StoredPages.collects (keyed : ∀ keys ∈ pages, Nonzero keys) (linked : Nonzero hashes)
    (fresh : LinksFresh [] pages (hash :: hashes)) (room : ∀ keys, pages.getLast? = some keys →
      keys.length < hashesPerBlock type) :
    Collects store type hasRegistry hasNetwork hash pages.flatten (hash :: hashes) := by
  obtain ⟨front, keys, before, last, split, split', sized, _, block⟩ := stored.exists_last
  obtain ⟨seen, requested, later, waits, same, members⟩ :=
    stored.collect_last keyed linked fresh
      (collectsAt_start type hasRegistry hasNetwork hash) split split'
  have free := room keys (by rw [split, getLast?_concat])
  have nonzero : Nonzero keys := keyed keys (by rw [split]; simp)
  obtain ⟨final, settles, replies⟩ := waits.finish (places_last sized free)
    block (blockLink_last sized free)
  refine ⟨final, _, (same final).mpr settles, replies, ?_⟩
  intro other
  rw [split, split', meetBlock, filter_last nonzero, mem_meet,
    mem_foldl_meet, members, flatten_append]
  simp only [mem_append, flatten_cons, flatten_nil,
    append_nil, mem_singleton, not_mem_nil, false_or]
  tauto

theorem StoredPages.not_collects_of_met
    (linked : Nonzero hashes) (known : ¬ LinksFresh [] pages (hash :: hashes)) (keys : List Bytes) :
    ¬ Collects store type hasRegistry hasNetwork hash keys (hash :: hashes) := by
  rintro ⟨final, collected, settles, replies, _⟩
  obtain ⟨other, hashes', settles', replies'⟩ := stored.collect_cycle linked
    known (collectsAt_start type hasRegistry hasNetwork hash)
  cases settles.unique settles'
  rw [replies] at replies'
  cases replies'

theorem StoredPages.not_collects_of_full (keyed : ∀ keys ∈ pages, Nonzero keys)
    (linked : Nonzero hashes) (fresh : LinksFresh [] pages (hash :: hashes))
    (split : pages = front ++ [page ++ [key]]) (full : (page ++ [key]).length = hashesPerBlock type)
    (link_eq : blockLink type (lastData type (page ++ [key])) = some link)
    (known : link ∈ front.flatten ++ page ∨ link ∈ hash :: hashes) :
    ¬ Collects store type hasRegistry hasNetwork hash keys (hash :: hashes) := by
  rintro ⟨final, collected, settles, replies, _⟩
  obtain ⟨front', keys', before, last, split₁, split', sized, _, block⟩ := stored.exists_last
  obtain ⟨rfl, same⟩ := append_inj' (split.symm.trans split₁) rfl
  cases same
  obtain ⟨seen, requested, later, waits, same, members⟩ :=
    stored.collect_last keyed linked fresh
      (collectsAt_start type hasRegistry hasNetwork hash) split split'
  have nonzero : Nonzero page := by
    intro other among
    apply keyed (page ++ [key]) (by rw [split]; simp)
    exact mem_append_left _ among
  have met : link ∈ meetBlock seen page last := by
    rw [meetBlock, nonzero.filter_eq, mem_meet, mem_foldl_meet, members]
    rw [split'] at known
    simp only [mem_append, mem_singleton] at known
    tauto
  obtain ⟨other, hashes', settles', replies'⟩ :=
    waits.cycle (places_full sized full) block link_eq met
  cases settles.unique ((same _).mpr settles')
  rw [replies] at replies'
  cases replies'

end

variable {tupleSize : Nat} {fileHash : Option Hash}
  {putIsEphemeral : Bool} {overrideMode : RecycleEphemeral}

section
variable (stored : StoredPages store type pages (hash :: hashes))
  (keyed : ∀ keys ∈ pages, Nonzero keys) (linked : Nonzero hashes)
include stored keyed linked

theorem StoredPages.recycles
    (room : ∀ keys, pages.getLast? = some keys → keys.length < hashesPerBlock type) :
    Recycles hashData store (recyclerOf type tupleSize fileHash hash hasRegistry hasNetwork
        putIsEphemeral overrideMode) pages.flatten := by
  obtain ⟨front, keys, before, last, split, split', sized, _, block⟩ := stored.exists_last
  obtain ⟨requested, later, waits, same⟩ := stored.load_last keyed linked
    (loadsAt_start type tupleSize fileHash hash hasRegistry hasNetwork
      putIsEphemeral overrideMode) split split'
  have free := room keys (by rw [split, getLast?_concat])
  have nonzero : Nonzero keys := keyed keys (by rw [split]; simp)
  obtain ⟨loaded, completes, open_, ends, perm⟩ :=
    waits.finish (places_last sized free) block (blockLink_last sized free)
  refine ⟨later, last, _, loaded, (same _).mpr ((ends _).mpr rfl), open_, block, completes, ?_⟩
  rw [filter_last nonzero, nil_append] at perm
  rw [split, flatten_append]
  simpa using perm

/-- From a full page the recycler loads all hashes but the last, unless this is a link. -/
theorem StoredPages.not_recycles_of_full (split : pages = front ++ [page ++ [key]])
    (full : (page ++ [key]).length = hashesPerBlock type)
    (ends : ∀ link, blockLink type (lastData type (page ++ [key])) = some link →
      store link = some (lastData type [])) :
    ¬ Recycles hashData store (recyclerOf type tupleSize fileHash hash hasRegistry hasNetwork
        putIsEphemeral overrideMode) pages.flatten := by
  rintro ⟨final, awaited, content, loaded, finishes, open_, held, completes, perm⟩
  obtain ⟨front', keys', before, last, split₁, split', sized, _, block⟩ := stored.exists_last
  obtain ⟨rfl, same⟩ := append_inj' (split.symm.trans split₁) rfl
  cases same
  obtain ⟨requested, later, waits, same⟩ := stored.load_last keyed linked
    (loadsAt_start type tupleSize fileHash hash hasRegistry hasNetwork
      putIsEphemeral overrideMode) split split'
  have nonzero : Nonzero page := by
    intro other among
    apply keyed (page ++ [key]) (by rw [split]; simp)
    exact mem_append_left _ among
  have short : (loaded.descriptor ++ loaded.endcap.toList).length =
      (front.flatten ++ page).length := by
    have places := places_full sized full
    cases link_eq : blockLink type (lastData type (page ++ [key])) with
    | none =>
      obtain ⟨loaded', completes', open', ends', perm'⟩ :=
        waits.finish places block link_eq
      cases (ends' _).mp ((same _).mp finishes)
      cases open_.symm.trans open'
      cases held.symm.trans block
      cases completes.unique completes'
      rw [perm'.length_eq, nonzero.filter_eq, nil_append]
    | some link =>
      have ending := ends link link_eq
      obtain ⟨next, waits', same'⟩ := waits.page places block link_eq
      have empty : Keys [] := fun _ among => absurd among not_mem_nil
      have free : ([] : List Bytes).length < hashesPerBlock type :=
        lt_of_lt_of_le Nat.zero_lt_two (two_le_hashesPerBlock type)
      obtain ⟨loaded', completes', open', ends', perm'⟩ :=
        waits'.finish (places_last empty free) ending (blockLink_last empty free)
      cases (ends' _).mp ((same' _).mp ((same _).mp finishes))
      cases open_.symm.trans open'
      cases held.symm.trans ending
      cases completes.unique completes'
      rw [perm'.length_eq, nonzero.filter_eq, filter_last (fun _ among => absurd among not_mem_nil),
        append_nil, nil_append]
  have all := perm.length_eq
  rw [short, split, flatten_append] at all
  simp at all

end

end

/-- The hash of a block of the chain is not among the hashes before it, of tuples or blocks. -/
def LinksUnmet (type : BlockSize) (keys hashes : List Bytes) : Prop :=
  ∀ position link, hashes[position + 1]? = some link →
    link ∉ keys.take ((position + 1) * (hashesPerBlock type - 1)) ∧
    link ∉ hashes.take (position + 1)

section
variable {store : Bytes → Option Bytes} {type : BlockSize}
  {pages : List (List Bytes)} {hashes : List Bytes}

section
variable (stored : StoredPages store type pages hashes)
include stored

theorem StoredPages.length_eq : pages.length = hashes.length := by
  induction stored with
  | last => rfl
  | page _ _ _ _ _ _ ih =>
    rw [length_cons, ih]
    rfl

theorem StoredPages.flatten_take {count : Nat} (fewer : count < pages.length) :
    (pages.take count).flatten = pages.flatten.take (count * (hashesPerBlock type - 1)) := by
  induction stored generalizing count with
  | last =>
    cases count with
    | zero => simp
    | succ count => simp at fewer
  | @page keys hash link pages hashes filled sized size whole stored behind ih =>
    cases count with
    | zero => simp
    | succ count =>
      have places : hashesPerBlock type - 1 = keys.length := by omega
      rw [take_succ_cons, flatten_cons, flatten_cons, ih (Nat.lt_of_succ_lt_succ fewer),
        Nat.succ_mul, places, add_comm, take_length_add_append]

theorem StoredPages.linksFresh_iff (keyed : ∀ keys ∈ pages, Nonzero keys) (seen : List Bytes) :
    LinksFresh seen pages hashes ↔ ∀ position link, hashes[position + 1]? = some link →
        link ∉ seen ∧ link ∉ (pages.take (position + 1)).flatten ∧
        link ∉ hashes.take (position + 1) := by
  induction stored generalizing seen with
  | last =>
    constructor
    · intro _ position link missing
      cases missing
    · intro _
      trivial
  | @page keys hash link pages hashes filled sized size whole stored behind ih =>
    have first : Nonzero keys := keyed keys mem_cons_self
    have members : ∀ other, other ∈ meetBlock seen keys hash ↔
        other ∈ seen ∨ other ∈ keys ∨ other = hash := by
      intro other
      rw [mem_meetBlock]
      have kept : other ∈ keys → ¬ isZeroBuffer other := by
        intro among
        simp [first other among]
      tauto
    rw [LinksFresh, ih (fun keys among => keyed keys (mem_cons_of_mem _ among)), members]
    constructor
    · rintro ⟨new, later⟩ position other at_
      cases position with
      | zero =>
        cases at_
        simp only [zero_add, take_succ_cons, take_zero,
          flatten_cons, flatten_nil, append_nil, mem_singleton]
        tauto
      | succ position =>
        have rest := later position other at_
        rw [members] at rest
        simp only [take_succ_cons, flatten_cons, mem_append, mem_cons] at rest ⊢
        tauto
    · intro all
      constructor
      · have head := all 0 link rfl
        simp only [zero_add, take_succ_cons, take_zero,
          flatten_cons, flatten_nil, append_nil, mem_singleton] at head
        tauto
      · intro position other at_
        have rest := all (position + 1) other at_
        rw [members]
        simp only [take_succ_cons, flatten_cons, mem_append, mem_cons] at rest ⊢
        tauto

theorem StoredPages.linksUnmet_iff (keyed : ∀ keys ∈ pages, Nonzero keys) :
    LinksFresh [] pages hashes ↔ LinksUnmet type pages.flatten hashes := by
  rw [stored.linksFresh_iff keyed, LinksUnmet]
  apply forall_congr'
  intro position
  apply forall_congr'
  intro link
  apply imp_congr_right
  intro at_
  have fewer : position + 1 < pages.length := by
    rw [stored.length_eq]
    exact (List.getElem?_eq_some_iff.mp at_).1
  rw [stored.flatten_take fewer]
  simp

end

end

variable {stream written : WriteableDescriptor} {tuples : List Tuple} {hashData : Bytes → Hash}

theorem Fresh.published_chain (fresh : Fresh stream)
    (sized : ∀ tuple ∈ tuples, tuple.hashes.length = stream.tupleSize)
    (wrote : writeDescriptor hashData stream tuples = some written) {hash : Hash}
    (published : publishedHash written.sent = some hash) :
    ∃ pages, Paged (hashesPerBlock stream.blockType) (descriptorKeys tuples) pages ∧
      (stream.blockType ≠ .nano ∨ (descriptorKeys tuples).length ≤
          hashesPerBlock stream.blockType) ∧
      chainHash hashData (pageChunks stream.blockType.bytes pages) = some hash ∧
      putBlocks written.sent = (chainOf hashData
          (pageChunks stream.blockType.bytes pages)).reverse := by
  by_cases nothing : stream.descriptorPad ≠ 32 ∨ descriptorKeys tuples = []
  · obtain ⟨other, wrote', none⟩ := fresh.written_nothing hashData nothing
    cases wrote.symm.trans wrote'
    rw [none] at published
    cases published
  obtain ⟨pad, more⟩ := not_or.mp nothing
  rw [not_not] at pad
  by_cases linkable : stream.blockType ≠ .nano ∨
      (descriptorKeys tuples).length ≤ hashesPerBlock stream.blockType
  · obtain ⟨pages, paged⟩ := exists_paged
      (two_le_hashesPerBlock stream.blockType) (descriptorKeys tuples) more
    obtain ⟨other, hash', wrote', named, sent⟩ := fresh.written_chain
      hashData pad sized paged linkable
    cases wrote.symm.trans wrote'
    rw [sent, publishedHash_append, publishedHash_descriptorPuts] at published
    cases published
    refine ⟨pages, paged, linkable, named, ?_⟩
    rw [sent, putBlocks, filterMap_append, ← putBlocks, putBlocks_descriptorPuts]
    exact append_nil _
  · obtain ⟨nano, long⟩ := not_or.mp linkable
    obtain ⟨other, wrote', none⟩ := fresh.written_nano hashData pad sized
      (not_not.mp nano) (Nat.lt_of_not_le long)
    cases wrote.symm.trans wrote'
    rw [none] at published
    cases published

/-- A store with the blocks of the chain and a block under every hash. -/
structure HoldsRepresentation (store : Bytes → Option Bytes)
    (type : BlockSize) (keys : List Bytes) (blocks : List Block) : Prop where
  chain : HoldsChain store blocks
  tuples : ∀ key ∈ keys, ∃ data, store key = some data ∧ data.length = type.bytes

/-- The hashes of the blocks of a written chain, the first one first. -/
def writtenHashes (written : WriteableDescriptor) : List Bytes :=
  (putBlocks written.sent).reverse.map fun block => block.hash.bytes

variable {store : Bytes → Option Bytes}

/-- Another block under a hash that no block of the chain has. -/
theorem HoldsRepresentation.update (holds : HoldsRepresentation store type keys blocks)
    (other : ∀ block ∈ blocks, block.hash.bytes ≠ link) (sized : data.length = type.bytes) :
    HoldsRepresentation (Function.update store link (some data)) type keys blocks := by
  constructor
  · intro block among
    rw [update_of_ne (other block among)]
    exact holds.chain block among
  · intro key among
    by_cases same : key = link
    · rw [same, update_self]
      exact ⟨data, rfl, sized⟩
    · rw [update_of_ne same]
      exact holds.tuples key among

theorem hash_of_mem_chainOf (among : block ∈ chainOf hashData chunks) :
    block.hash = hashData block.data := by
  induction chunks with
  | nil => cases among
  | cons chunk later ih =>
    rcases mem_cons.mp among with rfl | behind
    · rfl
    · exact ih behind

/-- A chain that the writer has published. -/
structure WrittenChain (type : BlockSize) (keys : List Bytes) (blocks : List Block)
    (pages : List (List Bytes)) (hash : Bytes) (hashes : List Bytes) : Prop where
  paged : Paged (hashesPerBlock type) keys pages
  keyed : ∀ page ∈ pages, Nonzero page
  linked : Nonzero hashes
  named : blocks.reverse.map (fun block => block.hash.bytes) = hash :: hashes
  stored : ∀ store, HoldsChain store blocks → StoredPages store type pages (hash :: hashes)

/-- The chain of a descriptor whose hash was sent, in all stores. -/
theorem Fresh.writtenChain (nonzero : ∀ data, isZeroBuffer (hashData data).bytes = false)
    (fresh : Fresh stream) (sized : ∀ tuple ∈ tuples, tuple.hashes.length = stream.tupleSize)
    (digests : ∀ tuple ∈ tuples, ∀ hash ∈ tuple.hashes, ∃ data, hash = hashData data)
    (wrote : writeDescriptor hashData stream tuples = some written) {hash : Hash}
    (published : publishedHash written.sent = some hash) :
    ∃ pages hashes, WrittenChain stream.blockType (descriptorKeys tuples)
        (putBlocks written.sent) pages hash.bytes hashes := by
  obtain ⟨pages, paged, linkable, named, puts⟩ := fresh.published_chain sized wrote published
  have digest : Nonzero (descriptorKeys tuples) := by
    intro key among
    obtain ⟨list, listed, among⟩ := mem_flatten.mp among
    obtain ⟨tuple, member, rfl⟩ := mem_map.mp listed
    obtain ⟨hash, within, rfl⟩ := mem_map.mp among
    obtain ⟨data, rfl⟩ := digests tuple member hash within
    exact nonzero data
  rw [chainHash] at named
  cases chained : chainOf hashData (pageChunks stream.blockType.bytes pages) with
  | nil =>
    rw [chained] at named
    cases named
  | cons block blocks =>
    rw [chained] at named puts
    cases named
    refine ⟨pages, blocks.map fun block => block.hash.bytes, paged, ?_, ?_, ?_, ?_⟩
    · intro page among key within
      apply digest
      rw [← paged.flatten_eq]
      exact mem_flatten.mpr ⟨page, among, within⟩
    · intro key among
      obtain ⟨other, behind, rfl⟩ := mem_map.mp among
      have member : other ∈ chainOf hashData (pageChunks stream.blockType.bytes pages) := by
        rw [chained]
        exact mem_cons_of_mem _ behind
      rw [hash_of_mem_chainOf member]
      exact nonzero _
    · rw [puts, reverse_reverse]
      rfl
    · intro store holds
      have held : HoldsChain store (chainOf hashData
          (pageChunks stream.blockType.bytes pages)) := by
        intro other among
        apply holds
        rw [puts, mem_reverse, ← chained]
        exact among
      have found := held.storedPages paged (keys_descriptorKeys tuples) linkable
      rw [chained] at found
      exact found

namespace WrittenChain

variable {type : BlockSize}
  {pages : List (List Bytes)} {hash : Bytes} {hashes : List Bytes}

/-- In no way do both walkers see the hashes of a full last page. -/
theorem not_lastFull (chain : WrittenChain type keys blocks pages hash hashes)
    (hashData : Bytes → Hash) (holds : HoldsRepresentation store type keys blocks)
    (fresh : LinksFresh [] pages (hash :: hashes))
    (agree : ∀ store, HoldsRepresentation store type keys blocks →
      Collects store type hasRegistry hasNetwork hash keys (hash :: hashes) ∧
      Recycles hashData store (recyclerOf type tupleSize fileHash hash hasRegistry hasNetwork
          putIsEphemeral overrideMode) keys) : ¬ LastFull (hashesPerBlock type) keys.length := by
  intro full
  have stored := chain.stored store holds.chain
  obtain ⟨front, last, _, _, split, _, _, _, _⟩ := stored.exists_last
  rw [chain.paged.lastFull_iff (by rw [split, getLast?_concat])] at full
  have places := two_le_hashesPerBlock type
  obtain ⟨page, key, rfl⟩ : ∃ page key, last = page ++ [key] := by
    have some : last ≠ [] := by
      intro none
      rw [none, length_nil] at full
      omega
    exact ⟨last.dropLast, last.getLast some, (dropLast_append_getLast some).symm⟩
  have flat := chain.paged.flatten_eq
  cases link_eq : blockLink type (lastData type (page ++ [key])) with
  | none =>
    have recycles := (agree store holds).2
    rw [← flat] at recycles
    apply stored.not_recycles_of_full chain.keyed chain.linked split full _ recycles
    intro link other
    rw [link_eq] at other
    cases other
  | some link =>
    by_cases known : link ∈ front.flatten ++ page ∨ link ∈ hash :: hashes
    · exact stored.not_collects_of_full chain.keyed chain.linked fresh
        split full link_eq known (agree store holds).1
    · have apart : ∀ block ∈ blocks, block.hash.bytes ≠ link := by
        intro block among same
        apply known
        right
        rw [← chain.named, ← same]
        exact mem_map.mpr ⟨block, mem_reverse.mpr among, rfl⟩
      have zeros : (lastData type []).length = type.bytes := by simp [lastData]
      have holds' := holds.update apart zeros
      have recycles := (agree _ holds').2
      rw [← flat] at recycles
      apply (chain.stored _ holds'.chain).not_recycles_of_full chain.keyed
        chain.linked split full _ recycles
      intro other other_eq
      rw [link_eq] at other_eq
      cases other_eq
      exact update_self _ _ _

end WrittenChain

/--
Both walkers see what was written exactly if the last page has a free place and no block of the
chain is met before the link to it.
-/
theorem walkers_see_the_written_blocks (hashData : Bytes → Hash)
    (nonzero : ∀ data, isZeroBuffer (hashData data).bytes = false) (type : BlockSize)
    (descriptorPad tupleSize : Nat) (writerNetwork isEphemeral : Bool) (putGroup : UInt32)
    (tuples : List Tuple) (sized : ∀ tuple ∈ tuples, tuple.hashes.length = tupleSize)
    (digests : ∀ tuple ∈ tuples, ∀ hash ∈ tuple.hashes, ∃ data, hash = hashData data)
    (written : WriteableDescriptor) (wrote : writeDescriptor hashData
      (writeableDescriptorCreate type descriptorPad tupleSize writerNetwork
        isEphemeral putGroup) tuples = some written) (hash : Hash)
    (published : publishedHash written.sent = some hash)
    (consistent : ∃ store, HoldsRepresentation store type
      (descriptorKeys tuples) (putBlocks written.sent))
    (hasRegistry hasNetwork putIsEphemeral : Bool) (overrideMode : RecycleEphemeral)
    (fileHash : Option Hash) :
    (∀ store, HoldsRepresentation store type (descriptorKeys tuples) (putBlocks written.sent) →
      Collects store type hasRegistry hasNetwork hash.bytes
        (descriptorKeys tuples) (writtenHashes written) ∧
      Recycles hashData store (recyclerOf type tupleSize fileHash hash.bytes hasRegistry
          hasNetwork putIsEphemeral overrideMode)
        (descriptorKeys tuples)) ↔
    ¬ LastFull (hashesPerBlock type) (tuples.length * tupleSize) ∧
      LinksUnmet type (descriptorKeys tuples) (writtenHashes written) := by
  have fresh := fresh_writeableDescriptorCreate type descriptorPad tupleSize
    writerNetwork isEphemeral putGroup
  obtain ⟨pages, hashes, found⟩ := fresh.writtenChain nonzero sized digests wrote published
  have chain : WrittenChain type (descriptorKeys tuples)
      (putBlocks written.sent) pages hash.bytes hashes := found
  have named : writtenHashes written = hash.bytes :: hashes := chain.named
  have flat := chain.paged.flatten_eq
  rw [← length_descriptorKeys sized, named]
  constructor
  · intro agree
    obtain ⟨store, holds⟩ := consistent
    have stored := chain.stored store holds.chain
    have unmet : LinksFresh [] pages (hash.bytes :: hashes) := by
      by_contra known
      exact stored.not_collects_of_met chain.linked known _ (agree store holds).1
    refine ⟨chain.not_lastFull hashData holds unmet agree, ?_⟩
    rw [← flat, ← stored.linksUnmet_iff chain.keyed]
    exact unmet
  · rintro ⟨free, unmet⟩ store holds
    have stored := chain.stored store holds.chain
    rw [← flat, ← stored.linksUnmet_iff chain.keyed] at unmet
    have room : ∀ keys, pages.getLast? = some keys → keys.length < hashesPerBlock type := by
      intro keys last
      obtain ⟨front, page, _, _, split, _, _, fits, _⟩ := stored.exists_last
      rw [split, getLast?_concat] at last
      cases last
      apply lt_of_le_of_ne fits
      intro full
      apply free
      rw [chain.paged.lastFull_iff (by rw [split, getLast?_concat])]
      exact full
    rw [← flat]
    exact ⟨stored.collects chain.keyed chain.linked unmet room,
      stored.recycles chain.keyed chain.linked room⟩

/-- Digests of data that begin with a zero, and of other data. -/
def twoDigests (data : Bytes) : Hash :=
  if data.head? = some 0 then filledHash 2 else filledHash 1

theorem twoDigests_nonzero (data : Bytes) : isZeroBuffer (twoDigests data).bytes = false := by
  rw [twoDigests]
  split <;> decide

/-- A descriptor of one block whose tuples repeat a block of zeros. -/
theorem exists_repeated_representation (count size : Nat) (some : 0 < count * size)
    (fits : count * size ≤ hashesPerBlock .standard) :
    ∃ written, writeDescriptor twoDigests
        (writeableDescriptorCreate .standard 32 size false false 0)
        (List.replicate count (repeatedTuple size (filledHash 2))) = .some written ∧
      publishedHash written.sent = .some (filledHash 1) ∧
      writtenHashes written = [(filledHash 1).bytes] ∧
      ∃ store, HoldsRepresentation store .standard (descriptorKeys
          (List.replicate count (repeatedTuple size (filledHash 2)))) (putBlocks written.sent) := by
  have length := length_repeated count size (filledHash 2)
  rw [← length] at some fits
  have more := length_pos_iff.mp some
  have digest : twoDigests (lastData .standard (descriptorKeys
      (replicate count (repeatedTuple size (filledHash 2))))) =
      filledHash 1 := by
    cases keys : descriptorKeys (replicate count (repeatedTuple size (filledHash 2))) with
    | nil => exact absurd keys more
    | cons key rest =>
      have twos : key = (filledHash 2).bytes := by
        apply eq_of_mem_repeated
        rw [keys]
        exact mem_cons_self
      rw [twos]
      rfl
  have fresh := fresh_writeableDescriptorCreate .standard 32 size false false 0
  obtain ⟨written, hash, wrote, named, sent⟩ := fresh.written_chain
    twoDigests rfl length_hashes_of_repeated (.last more fits) (.inr fits)
  have same : hash = filledHash 1 := by
    rw [← digest]
    have found := Option.some.inj named
    simp only [priorBytes, chainOf, List.head?_nil, Option.map_none, append_nil] at found
    exact found.symm
  have published : publishedHash written.sent = .some (filledHash 1) := by
    rw [sent, publishedHash_append, publishedHash_descriptorPuts, same]
    rfl
  have single : writtenHashes written = [(filledHash 1).bytes] := by
    rw [writtenHashes, sent, putBlocks, filterMap_append, ← putBlocks, putBlocks_descriptorPuts]
    simp only [filterMap_cons, filterMap_nil, append_nil, reverse_reverse]
    change [(twoDigests (lastData .standard _ ++ [])).bytes] = _
    rw [append_nil]
    exact congrArg (fun hash => [Hash.bytes hash]) digest
  have chain := holdsChain_oneBlockStore twoDigests .standard (filledHash 1)
    digest length_hashes_of_repeated more fits written wrote
  refine ⟨written, wrote, published, single, Function.update (oneBlockStore .standard (filledHash 1)
        (descriptorKeys (replicate count (repeatedTuple size (filledHash 2)))))
      (filledHash 2).bytes (.some (lastData .standard [])), ?_, ?_⟩
  · intro block among
    have stored := chain block among
    rw [update_of_ne, stored]
    intro twos
    rw [oneBlockStore, twos, if_neg (by decide)] at stored
    cases stored
  · intro key among
    rw [eq_of_mem_repeated among, update_self]
    exact ⟨_, rfl, by simp [lastData]⟩

/-- The blocks of a file with one tuple are seen by both walkers. -/
theorem one_tuple_is_seen :
    ∃ written, writeDescriptor twoDigests (writeableDescriptorCreate .standard 32 3 false false 0)
        (List.replicate 1 (repeatedTuple 3 (filledHash 2))) = some written ∧
      ∀ store, HoldsRepresentation store .standard (descriptorKeys
            (List.replicate 1 (repeatedTuple 3 (filledHash 2))))
          (putBlocks written.sent) →
        Collects store .standard false false (filledHash 1).bytes (descriptorKeys
            (List.replicate 1 (repeatedTuple 3 (filledHash 2))))
          (writtenHashes written) ∧
        Recycles twoDigests store (recyclerOf .standard 3 none (filledHash 1).bytes false false
            false .none)
          (descriptorKeys (List.replicate 1 (repeatedTuple 3 (filledHash 2)))) := by
  obtain ⟨written, wrote, published, single, consistent⟩ :=
    exists_repeated_representation 1 3 (by decide) (by decide)
  refine ⟨written, wrote, ?_⟩
  refine (walkers_see_the_written_blocks twoDigests twoDigests_nonzero
    .standard 32 3 false false 0 _ length_hashes_of_repeated ?_ written wrote
    (filledHash 1) published consistent false false false .none none).mpr ⟨?_, ?_⟩
  · intro tuple among hash within
    rw [(mem_replicate.mp among).2] at within
    rw [(mem_replicate.mp within).2]
    exact ⟨[0], rfl⟩
  · rw [length_replicate, lastFull_of_le (by decide)]
    decide
  · intro position link behind
    rw [single] at behind
    cases behind

/-- Of a full block the walkers do not see what was written. -/
theorem full_block_is_not_seen :
    ∃ written, writeDescriptor twoDigests (writeableDescriptorCreate .standard 32 2 false false 0)
        (List.replicate 2000 (repeatedTuple 2 (filledHash 2))) = some written ∧
      (∃ store, HoldsRepresentation store .standard (descriptorKeys
          (List.replicate 2000 (repeatedTuple 2 (filledHash 2))))
        (putBlocks written.sent)) ∧
      ¬ ∀ store, HoldsRepresentation store .standard (descriptorKeys
            (List.replicate 2000 (repeatedTuple 2 (filledHash 2))))
          (putBlocks written.sent) →
        Collects store .standard false false (filledHash 1).bytes (descriptorKeys
            (List.replicate 2000 (repeatedTuple 2 (filledHash 2))))
          (writtenHashes written) ∧
        Recycles twoDigests store (recyclerOf .standard 2 none (filledHash 1).bytes false false
            false .none)
          (descriptorKeys (List.replicate 2000 (repeatedTuple 2 (filledHash 2)))) := by
  obtain ⟨written, wrote, published, single, consistent⟩ :=
    exists_repeated_representation 2000 2 (by decide) (by decide)
  refine ⟨written, wrote, consistent, ?_⟩
  intro agree
  obtain ⟨store, holds⟩ := consistent
  have fresh := fresh_writeableDescriptorCreate .standard 32 2 false false 0
  obtain ⟨pages, hashes, found⟩ := fresh.writtenChain twoDigests_nonzero length_hashes_of_repeated
    (by
      intro tuple among hash within
      rw [(mem_replicate.mp among).2] at within
      rw [(mem_replicate.mp within).2]
      exact ⟨[0], rfl⟩) wrote published
  have named : writtenHashes written = (filledHash 1).bytes :: hashes := found.named
  have none : hashes = [] := by
    rw [single] at named
    exact (cons.inj named).2.symm
  rw [named] at agree
  apply found.not_lastFull twoDigests holds _ agree
  · rw [length_repeated]
    exact ⟨0, rfl⟩
  · rw [none]
    cases pages <;> trivial

end Liboffs.OffStreams
