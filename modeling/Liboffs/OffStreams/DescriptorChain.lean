import Liboffs.Library.Pages
import Liboffs.OffStreams.DescriptorKeys
import Liboffs.OffStreams.WriteableDescriptor

/-!
# The chain of a written descriptor

The hashes of the tuples are laid out on the blocks of the chain as on linked
pages, with as many places on a page as hashes fit in a block.  A chain of
nano blocks cannot be linked: the places do not fill the block, and what
remains of it is lost where the next hash is put behind them.
-/

namespace Liboffs.OffStreams

open BlockCache Library Library.ByteOrder Library.Pages List WriteableDescriptor

def hashesPerBlock (type : BlockSize) : Nat :=
  type.bytes / 32

theorem two_le_hashesPerBlock (type : BlockSize) : 2 ≤ hashesPerBlock type := by
  cases type <;> decide

theorem hashesPerBlock_mul_le (type : BlockSize) : hashesPerBlock type * 32 ≤ type.bytes := by
  cases type <;> decide

theorem hashesPerBlock_mul_eq (filled : type ≠ .nano) : hashesPerBlock type * 32 = type.bytes := by
  cases type with
  | nano => exact absurd rfl filled
  | _ => decide

/-- The chunks of pages of hashes; the last is filled up with zeros. -/
def pageChunks (blockSize : Nat) : List (List Bytes) → List Bytes
  | [] => []
  | [last] => [last.flatten ++ List.replicate (blockSize - last.flatten.length) 0]
  | page :: next :: later => page.flatten :: pageChunks blockSize (next :: later)

theorem pageChunks_cons (blockSize : Nat) (more : later ≠ []) :
    pageChunks blockSize (page :: later) = page.flatten :: pageChunks blockSize later := by
  match later, more with
  | next :: later, _ => rfl

variable {tuples : List Tuple} {stream : WriteableDescriptor} {keys : List Bytes}

theorem pageChunks_ne_nil (blockSize : Nat)
    (more : pages ≠ []) : pageChunks blockSize pages ≠ [] := by
  match pages, more with
  | [last], _ => exact cons_ne_nil _ _
  | page :: next :: later, _ => exact cons_ne_nil _ _

/-- The loop cuts a descriptor into the chunks of its pages. -/
theorem chunkLoop_pages (paged : Paged capacity keys pages) (room : 2 ≤ capacity)
    (sized : Keys keys) (enough : keys.flatten.length < rounds) :
    chunkLoop blockSize (capacity * 32) (capacity * 32 - 32) rounds
      keys.flatten = some (pageChunks blockSize pages) := by
  induction paged generalizing rounds with
  | @last keys more fits =>
    have length := sized.length_flatten
    cases rounds with
    | zero => cases enough
    | succ rounds =>
      have nonempty : keys.flatten.isEmpty = false := by
        rw [sized.flatten_isEmpty]
        cases keys with
        | nil => exact absurd rfl more
        | cons => rfl
      rw [chunkLoop, if_neg (by omega), nonempty]
      rfl
  | @page front rest pages filled more behind ih =>
    obtain ⟨first, second⟩ := sized.of_append
    have firstLength := first.length_flatten
    have secondLength := second.length_flatten
    have whole : (front ++ rest).flatten = front.flatten ++ rest.flatten := flatten_append
    have chunk : capacity * 32 - 32 = front.flatten.length := by omega
    rw [whole] at enough ⊢
    rw [length_append] at enough
    cases rounds with
    | zero => cases enough
    | succ rounds =>
      have sliced : bufferSlice (front.flatten ++ rest.flatten) 0
          front.flatten.length = some front.flatten := by
        rw [bufferSlice, if_pos ⟨Nat.zero_le _, by
          rw [length_append]
          omega⟩]
        simp
      rw [chunkLoop, if_pos (by rw [length_append]; omega), chunk,
        sliced, drop_left, ← chunk, ih second (by omega),
        pageChunks_cons _ behind.pages_ne_nil]
      rfl

/-- On blocks that the places fill, the chunks make blocks. -/
theorem chunksFit_pageChunks (paged : Paged (hashesPerBlock type) keys pages) (sized : Keys keys)
    (linkable : type ≠ .nano ∨ keys.length ≤ hashesPerBlock type) :
    ChunksFit type (pageChunks type.bytes pages) := by
  induction paged with
  | @last keys more fits =>
    have length := sized.length_flatten
    have room := hashesPerBlock_mul_le type
    change List.length _ = _
    rw [length_append, length_replicate]
    omega
  | @page front rest pages filled more behind ih =>
    obtain ⟨first, second⟩ := sized.of_append
    have large := linkable.resolve_right (by rw [length_append]; omega)
    have fits := ih second (.inl large)
    have length := first.length_flatten
    have full := hashesPerBlock_mul_eq large
    rw [pageChunks_cons _ behind.pages_ne_nil]
    cases chunks : pageChunks type.bytes pages with
    | nil => exact absurd chunks (pageChunks_ne_nil _ behind.pages_ne_nil)
    | cons chunk chunks' =>
      rw [chunks] at fits
      exact ⟨by omega, fits⟩

section
variable (hashData : Bytes → Hash)

theorem chainOf_page (more : later ≠ []) :
    ∃ next, chainHash hashData (pageChunks blockSize later) = some next ∧
      chainOf hashData (pageChunks blockSize (page :: later)) = ⟨page.flatten ++ next.bytes,
          hashData (page.flatten ++ next.bytes)⟩ ::
          chainOf hashData (pageChunks blockSize later) := by
  have chunks := pageChunks_ne_nil blockSize more
  cases chained : chainOf hashData (pageChunks blockSize later) with
  | nil =>
    have length := length_chainOf hashData (pageChunks blockSize later)
    rw [chained] at length
    exact absurd (length_eq_zero_iff.mp length.symm) chunks
  | cons block blocks =>
    refine ⟨block.hash, ?_, ?_⟩
    · rw [chainHash, chained]
      rfl
    · rw [pageChunks_cons _ more, chainOf, chained]
      rfl

end

def tupleKeys (tuple : Tuple) : List Bytes :=
  tuple.hashes.map Hash.bytes

/-- The hashes of some tuples. -/
def descriptorKeys (tuples : List Tuple) : List Bytes :=
  (tuples.map tupleKeys).flatten

theorem keys_descriptorKeys (tuples : List Tuple) : Keys (descriptorKeys tuples) := by
  intro key among
  obtain ⟨keys, listed, among⟩ := mem_flatten.mp among
  obtain ⟨tuple, _, rfl⟩ := mem_map.mp listed
  obtain ⟨hash, _, rfl⟩ := mem_map.mp among
  exact hash.size

theorem length_descriptorKeys (sized : ∀ tuple ∈ tuples, tuple.hashes.length = size) :
    (descriptorKeys tuples).length = tuples.length * size := by
  induction tuples with
  | nil => simp [descriptorKeys]
  | cons tuple tuples ih =>
    have first := sized tuple mem_cons_self
    have rest := ih fun other among => sized other (mem_cons_of_mem _ among)
    simp only [descriptorKeys, map_cons, flatten_cons, length_append, length_cons] at rest ⊢
    rw [rest, tupleKeys, length_map, first, Nat.succ_mul, add_comm]

/-- Tuples of the right size with hashes as long as the pad are collected. -/
theorem foldl_descriptorWrite (active : stream.isDeactivated = false)
    (pad : stream.descriptorPad = 32)
    (sized : ∀ tuple ∈ tuples, tuple.hashes.length = stream.tupleSize) :
    tuples.foldl descriptorWrite stream =
      { stream with
        descriptor := stream.descriptor ++ (descriptorKeys tuples).flatten } := by
  induction tuples generalizing stream with
  | nil => simp [descriptorKeys]
  | cons tuple tuples ih =>
    have written : descriptorWrite stream tuple =
        { stream with
          descriptor := stream.descriptor ++ tuple.hashes.flatMap Hash.bytes } := by
      rw [descriptorWrite, if_neg (by simp [active]),
        if_neg (not_not_intro (sized tuple mem_cons_self)), if_neg]
      rintro ⟨hash, _, other⟩
      exact other (hash.size.trans pad.symm)
    rw [foldl_cons, written, ih]
    · simp [descriptorKeys, tupleKeys, List.flatMap]
    · exact active
    · exact pad
    · exact fun other among => sized other (mem_cons_of_mem _ among)

theorem foldl_descriptorWrite_nothing
    (nothing : stream.descriptorPad ≠ 32 ∨ descriptorKeys tuples = []) :
    tuples.foldl descriptorWrite stream = stream := by
  induction tuples with
  | nil => rfl
  | cons tuple tuples ih =>
    have same : descriptorWrite stream tuple = stream := by
      rw [descriptorWrite]
      split
      · rfl
      · split
        · rfl
        · split
          · rfl
          · rename_i short
            cases hashes : tuple.hashes with
            | nil => simp
            | cons hash rest =>
              exfalso
              rcases nothing with pad | none
              · apply short
                refine ⟨hash, ?_, ?_⟩
                · rw [hashes]
                  exact mem_cons_self
                · rw [hash.size]
                  exact pad.symm
              · simp [descriptorKeys, tupleKeys, hashes] at none
    rw [foldl_cons, same]
    apply ih
    apply nothing.imp_right
    intro none
    exact (append_eq_nil_iff.mp none).2

/-- The hash that the descriptor is found under, once it has been sent. -/
def publishedHash (sent : List DescriptorEffect) : Option Hash :=
  (sent.filterMap fun
    | .notify (.data hash) => some hash
    | _ => none).head?

def putBlocks (sent : List DescriptorEffect) : List Block :=
  sent.filterMap fun
    | .put block _ => some block
    | .putEphemeral block => some block
    | _ => none

/-- A descriptor that is given some tuples and then closed. -/
def writeDescriptor (hashData : Bytes → Hash) (stream : WriteableDescriptor)
    (tuples : List Tuple) : Option WriteableDescriptor :=
  descriptorClose hashData (tuples.foldl descriptorWrite stream)

/-- A descriptor as it has been created. -/
structure Fresh (stream : WriteableDescriptor) : Prop where
  cut : stream.cutPoint = stream.blockType.bytes / stream.descriptorPad * stream.descriptorPad
  empty : stream.descriptor = []
  unsent : stream.sentDescriptor = false
  active : stream.isDeactivated = false
  silent : stream.sent = []

theorem fresh_writeableDescriptorCreate (blockType : BlockSize)
    (descriptorPad tupleSize : Nat) (hasNetwork isEphemeral : Bool) (putGroup : UInt32) :
    Fresh (writeableDescriptorCreate blockType descriptorPad tupleSize
      hasNetwork isEphemeral putGroup) :=
  ⟨rfl, rfl, rfl, rfl, rfl⟩

section
variable (hashData : Bytes → Hash)

theorem descriptorClose_of_open
    (active : stream.isDeactivated = false) (unsent : stream.sentDescriptor = false) :
    descriptorClose hashData stream = buildDescriptorBlocks hashData stream := by
  rw [descriptorClose, active, unsent]
  rfl

section
variable (fresh : Fresh stream) (pad : stream.descriptorPad = 32)
include fresh pad

theorem Fresh.descriptorChunks_eq (sized : Keys keys)
    (paged : Paged (hashesPerBlock stream.blockType) keys pages) :
    descriptorChunks { stream with descriptor := keys.flatten } =
      some (pageChunks stream.blockType.bytes pages) := by
  have cut : stream.cutPoint = hashesPerBlock stream.blockType * 32 := by
    rw [fresh.cut, pad]
    rfl
  have chunk : chunkSize
      { stream with descriptor := keys.flatten } = hashesPerBlock stream.blockType * 32 - 32 := by
    change (stream.cutPoint + 2 ^ 64 - stream.descriptorPad) % 2 ^ 64 = _
    rw [cut, pad]
    cases stream.blockType <;> rfl
  rw [descriptorChunks, chunk]
  rw [cut]
  exact chunkLoop_pages paged (two_le_hashesPerBlock _) sized (Nat.lt_succ_self _)

variable (sized : ∀ tuple ∈ tuples, tuple.hashes.length = stream.tupleSize)
include sized

theorem Fresh.writeDescriptor_eq :
    writeDescriptor hashData stream tuples = buildDescriptorBlocks hashData
      { stream with descriptor := (descriptorKeys tuples).flatten } := by
  rw [writeDescriptor, foldl_descriptorWrite fresh.active pad sized, fresh.empty, nil_append]
  exact descriptorClose_of_open hashData fresh.active fresh.unsent

/-- A descriptor whose blocks can be linked is put as the chain of its pages. -/
theorem Fresh.written_chain
    (paged : Paged (hashesPerBlock stream.blockType) (descriptorKeys tuples) pages)
    (linkable : stream.blockType ≠ .nano ∨
      (descriptorKeys tuples).length ≤ hashesPerBlock stream.blockType) :
    ∃ written hash, writeDescriptor hashData stream tuples = some written ∧
      chainHash hashData (pageChunks stream.blockType.bytes pages) = some hash ∧ written.sent =
        descriptorPuts stream (chainOf hashData
            (pageChunks stream.blockType.bytes pages)).reverse ++
          [.notify (.data hash), .notify .finished, .notify .complete, .notify .close] := by
  have keys := keys_descriptorKeys tuples
  have chunks := fresh.descriptorChunks_eq pad keys paged
  have fits := chunksFit_pageChunks paged keys linkable
  have built := buildDescriptorBlocks_eq hashData chunks fits
  cases chained : chainOf hashData (pageChunks stream.blockType.bytes pages) with
  | nil =>
    have length := length_chainOf hashData (pageChunks stream.blockType.bytes pages)
    rw [chained] at length
    exact absurd (length_eq_zero_iff.mp length.symm) (pageChunks_ne_nil _ paged.pages_ne_nil)
  | cons block blocks =>
    have hash : chainHash hashData (pageChunks stream.blockType.bytes pages) = some block.hash := by
      rw [chainHash, chained]
      rfl
    rw [hash, chained] at built
    have opened := fresh.writeDescriptor_eq hashData pad sized
    refine ⟨_, block.hash, opened.trans built, hash, ?_⟩
    simp [descriptorComplete, send, fresh.silent, descriptorPuts]

end

theorem publishedHash_append :
    publishedHash (first ++ second) =
      (publishedHash first).orElse fun _ => publishedHash second := by
  simp only [publishedHash, filterMap_append, List.head?_append]
  cases (List.filterMap _ first).head? <;> rfl

/-- A chunk that makes no block keeps the descriptor from being published. -/
theorem chainLoop_unpublished (among : chunk ∈ chunks) (length : chunk.length = 96)
    (silent : publishedHash stream.sent = none) :
    publishedHash (chainLoop hashData chunks prior stream).sent = none := by
  induction chunks generalizing prior stream with
  | nil => cases among
  | cons first rest ih =>
    rw [chainLoop]
    cases made : blockCreateExistingDataByType hashData (first ++ priorBytes prior) with
    | none =>
      simp only [descriptorDeactivate]
      split
      · exact silent
      · rw [send, publishedHash_append, silent]
        rfl
    | some block =>
      apply ih
      · rcases mem_cons.mp among with rfl | behind
        · exfalso
          unfold blockCreateExistingDataByType blockCreateExistingDataHash at made
          rw [if_neg] at made
          · cases made
          · rw [length_append, length]
            cases prior with
            | none => decide
            | some hash =>
              rw [priorBytes, hash.size]
              decide
        · exact behind
      · rw [descriptorPut, send, publishedHash_append, silent]
        cases stream.isEphemeral <;> rfl

/-- A descriptor without hashes has no blocks. -/
theorem Fresh.written_nothing (fresh : Fresh stream)
    (nothing : stream.descriptorPad ≠ 32 ∨ descriptorKeys tuples = []) :
    ∃ written, writeDescriptor hashData stream tuples = some written ∧
      publishedHash written.sent = none := by
  refine ⟨descriptorComplete stream none, ?_, ?_⟩
  · have chunks : descriptorChunks stream = some [] := by
      rw [descriptorChunks, fresh.empty, chunkLoop, if_neg (by simp)]
      rfl
    rw [writeDescriptor, foldl_descriptorWrite_nothing nothing,
      descriptorClose_of_open hashData fresh.active fresh.unsent, buildDescriptorBlocks, chunks]
    rfl
  · rw [descriptorComplete, send, fresh.silent]
    rfl

/-- Nano blocks cannot be linked. -/
theorem Fresh.written_nano (fresh : Fresh stream) (pad : stream.descriptorPad = 32)
    (sized : ∀ tuple ∈ tuples, tuple.hashes.length = stream.tupleSize)
    (nano : stream.blockType = .nano)
    (more : hashesPerBlock stream.blockType < (descriptorKeys tuples).length) :
    ∃ written, writeDescriptor hashData stream tuples = some written ∧
      publishedHash written.sent = none := by
  have keys := keys_descriptorKeys tuples
  obtain ⟨pages, paged⟩ := exists_paged
    (two_le_hashesPerBlock stream.blockType) (descriptorKeys tuples) (by
      intro none
      rw [none] at more
      cases more)
  have chunks := fresh.descriptorChunks_eq pad keys paged
  rw [fresh.writeDescriptor_eq hashData pad sized, buildDescriptorBlocks, chunks]
  refine ⟨_, rfl, ?_⟩
  generalize descriptorKeys tuples = keyed at *
  cases paged with
  | last some fits => omega
  | @page front rest pages filled more behind =>
    have first := keys.of_append.1
    have three : front.length = 3 := by
      rw [nano] at filled
      exact Nat.succ.inj filled
    have length := first.length_flatten
    rw [three] at length
    apply chainLoop_unpublished hashData
    · rw [pageChunks_cons _ behind.pages_ne_nil, mem_reverse]
      exact mem_cons_self
    · exact length
    · rw [fresh.silent]
      rfl

end

end Liboffs.OffStreams
