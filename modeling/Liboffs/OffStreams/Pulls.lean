import Liboffs.OffStreams.Storing

/-!
# The pulls of a put

A writeable stream asks its current recipe for one block at a time and keeps a flag while it
waits.  Here the stream stands with the pulls not yet answered, each under its recipe; messages
come in any order.

A waiting block must have a pull at the current recipe.  A recipe that ends while it is asked
breaks this: the flag is still set, and the next recipe is not pulled.
-/

namespace Liboffs.OffStreams

open BlockCache Library Library.ByteOrder Library.XorBytes Library.Runs List

/-- A stream with the recipes whose pulls are not answered. -/
structure Putting where
  stream : WriteableOffStream
  pulls : List Nat

/-- A message, or a block that answers a pull at a recipe. -/
inductive PutStep where
  | handle (message : WriterMessage)
  | deliver (recipe : Nat) (block : Block)

/-- The pulls among what was sent. -/
def WriteableOffStream.pullCount (stream : WriteableOffStream) : Nat :=
  stream.sent.count .pull

/-- Data that makes a block. -/
def WholeData (data : Bytes) : Prop :=
  ∃ type : BlockSize, data.length = type.bytes

section
variable (hashData : Bytes → Hash)

/-- A message is handled; its pulls go to the recipe that is then current. -/
def Putting.dispatch (putting : Putting) (message : WriterMessage) : Putting :=
  let next := writeableOffStreamDispatch hashData putting.stream message
  { stream := next
    pulls := putting.pulls ++ List.replicate (next.pullCount - putting.stream.pullCount)
      next.currentRecipeIndex }

/-- A step of a put.  What a recipe delivers is a block. -/
def putStep (putting : Putting) : PutStep → Option Putting
  | .handle (.recipeBlockData _) => none
  | .handle message => some (putting.dispatch hashData message)
  | .deliver recipe block =>
    if recipe ∈ putting.pulls ∧
        blockCreateExistingDataHash block.data block.hash = some block then
      some ({ putting with pulls := putting.pulls.erase recipe }.dispatch hashData
        (.recipeBlockData block))
    else
      none

end

/-- A waiting block of an open stream has a pull at the current recipe. -/
def Unstalled (putting : Putting) : Prop :=
  putting.stream.entries ≠ [] → putting.stream.isDeactivated = false →
    putting.stream.currentRecipeIndex ∈ putting.pulls

/-- A recipe ends only while it is not asked, or as the last one. -/
def EndsUnasked (putting : Putting) : PutStep → Prop
  | .handle .recipeRotate =>
    putting.stream.isDeactivated = true ∨ putting.stream.hasPulled = false ∨
      putting.stream.recipes.length ≤ putting.stream.currentRecipeIndex + 1
  | _ => True

/-- An entry whose blocks are whole. -/
def TupleEntry.Whole (entry : TupleEntry) : Prop :=
  WholeData entry.origin.data ∧ ∀ block ∈ entry.randomBlocks, WholeData block.data

/-- A stream within a handler: the flag was set at its start, or a pull has been sent. -/
structure Fed (had : Prop) (base index : Nat) (stream : WriteableOffStream) : Prop where
  recipe : stream.currentRecipe.isSome = true
  index : stream.currentRecipeIndex = index
  whole : ∀ entry ∈ stream.entries, entry.Whole
  grows : base ≤ stream.pullCount
  asked : stream.hasPulled = true → had ∨ base < stream.pullCount

/-- Entries wait under the flag. -/
def Asking (stream : WriteableOffStream) : Prop :=
  stream.entries ≠ [] → stream.hasPulled = true

/-- What a handler gives while the stream stays open. -/
def Feeds (had : Prop) (base index : Nat) (result : WriteableOffStream) : Prop :=
  result.isDeactivated = false → Fed had base index result ∧ Asking result

variable {stream : WriteableOffStream} {had : Prop} {base index : Nat}

section
variable (fed : Fed had base index stream)
include fed

/-- Other effects than pulls change nothing. -/
theorem Fed.send {effects : List WriterEffect}
    (others : .pull ∉ effects) : Fed had base index (stream.send effects) := by
  have same : (stream.send effects).pullCount = stream.pullCount := by
    simp [WriteableOffStream.pullCount, WriteableOffStream.send, count_eq_zero.mpr others]
  exact { fed with
    grows := by rw [same]; exact fed.grows
    asked := by rw [same]; exact fed.asked }

/-- A stream with a recipe has asked afterwards. -/
theorem Fed.getRandomBlocks :
    Fed had base index (getRandomBlocks stream) ∧ Asking (getRandomBlocks stream) := by
  unfold OffStreams.getRandomBlocks
  split
  · rename_i answered
    refine ⟨fed, fun _ => answered.resolve_right ?_⟩
    intro missing
    have ready := fed.recipe
    rw [Option.isNone_iff_eq_none.mp missing] at ready
    cases ready
  · have sent : ({ stream with hasPulled := true }.send [.pull]).pullCount =
        stream.pullCount + 1 := by
      simp [WriteableOffStream.pullCount, WriteableOffStream.send]
    exact ⟨{ fed with
      grows := by rw [sent]; exact Nat.le_succ_of_le fed.grows
      asked := fun _ => .inr (by rw [sent]; exact Nat.lt_succ_of_le fed.grows) }, fun _ => rfl⟩

theorem Fed.becomeReadable : Fed had base index (becomeReadable stream) := by
  unfold OffStreams.becomeReadable
  split
  · exact fed
  · have readable : Fed had base index { stream with isReadable := true } := { fed with }
    exact readable.send (by simp)

theorem Fed.recordCreated (hash : Hash) : Fed had base index (recordCreated stream hash) := by
  obtain ⟨created, recorded⟩ := recordCreated_eq stream hash
  rw [recorded]
  exact { fed with }

/-- An entry of a whole block is added. -/
theorem Fed.entered {origin : Block}
    (whole : WholeData origin.data) (final : Option Block) : Fed had base index
      { stream with
        finalBlock := final
        entries := stream.entries ++ [entryCreate origin stream.tupleSize] } := by
  refine { fed with whole := fun entry member => ?_ }
  rcases mem_append.mp member with old | new
  · exact fed.whole entry old
  · rw [mem_singleton.mp new]
    exact ⟨whole, by simp [entryCreate]⟩

end

/-- The sum of whole blocks is as long as the longest of them. -/
theorem whole_foldl_bufferXor {blocks : List Block} (whole : WholeData data)
    (all : ∀ block ∈ blocks, WholeData block.data) :
    WholeData ((blocks.map Block.data).foldl bufferXor data) := by
  induction blocks generalizing data with
  | nil => exact whole
  | cons block rest ih =>
    apply ih
    · obtain ⟨type, sized⟩ := whole
      obtain ⟨other, otherSized⟩ := all block mem_cons_self
      rw [bufferXor_eq]
      rcases Nat.le_total type.bytes other.bytes with shorter | longer
      · exact ⟨other, by rw [length_xorBytes, sized, otherSized, max_eq_right shorter]⟩
      · exact ⟨type, by rw [length_xorBytes, sized, otherSized, max_eq_left longer]⟩
    · intro later member
      exact all later (mem_cons_of_mem _ member)

theorem whole_of_created {hash : Hash}
    (created : blockCreateExistingDataHash data hash = some block) : WholeData block.data := by
  unfold blockCreateExistingDataHash at created
  split at created
  · rename_i sized
    cases created
    simp only [mem_cons, not_mem_nil, or_false] at sized
    rcases sized with sized | sized | sized | sized
    all_goals exact ⟨_, sized⟩
  · cases created

variable (hashData : Bytes → Hash)

theorem acceptBlock_feeds (fed : Fed had base index stream) (waits : Asking stream) :
    Fed had base index (acceptBlock hashData stream) ∧ Asking (acceptBlock hashData stream) := by
  unfold acceptBlock
  split
  · exact ⟨{ fed with }, waits⟩
  · rename_i origin created
    have entered := fed.entered (whole_of_created created) stream.finalBlock
    have asks := entered.becomeReadable.getRandomBlocks
    exact ⟨{ asks.1 with }, asks.2⟩

theorem writeLoop_feeds (rounds : Nat) (data : Bytes) (fed : Fed had base index stream)
    (waits : Asking stream) : Fed had base index (writeLoop hashData rounds stream data) ∧
      Asking (writeLoop hashData rounds stream data) := by
  induction rounds generalizing stream data with
  | zero => exact ⟨fed, waits⟩
  | succ rounds ih =>
    cases data with
    | nil => exact ⟨fed, waits⟩
    | cons byte rest =>
      rw [writeLoop]
      split
      · exact And.elim (ih _) (acceptBlock_feeds hashData { fed with } waits)
      · exact ih _ { fed with } waits

section
variable (frand : Nat → UInt8) (fed : Fed had base index stream) (waits : Asking stream)
include frand fed waits

theorem acceptRest_feeds : Fed had base index (acceptRest hashData stream frand) ∧
      Asking (acceptRest hashData stream frand) := by
  unfold acceptRest
  split
  · exact ⟨fed, waits⟩
  · split
    · exact ⟨{ fed with }, waits⟩
    · rename_i origin created
      have whole : WholeData origin.data := by
        unfold blockCreateByType at created
        split at created
        · cases created
        · rename_i fits
          cases created
          exact ⟨stream.blockType, by simp [Nat.add_sub_cancel' (not_lt.mp fits)]⟩
      have asks := (fed.entered whole (some origin)).getRandomBlocks
      exact ⟨{ asks.1 with }, asks.2⟩

theorem writeableFinalize_feeds :
    Feeds had base index (writeableFinalize hashData stream frand) := by
  unfold writeableFinalize
  split
  · exact fun _ => ⟨fed, waits⟩
  · dsimp only
    split
    · rintro ⟨⟩
    · intro _
      have sent : Fed had base index (stream.send
          [.notify (.data (.fileHash (hashData stream.hashState)))]) := fed.send (by simp)
      have rest := acceptRest_feeds hashData frand sent waits
      exact ⟨{ rest.1 with }, rest.2⟩

end

/-- An accepted put sends no pull, a failed one closes the stream. -/
theorem writerPutResult_feeds (answer : CachePut) (promoted : Bool) (hash : Hash)
    (fib : UInt32) (fed : Fed had base index stream) (waits : Asking stream) :
    Feeds had base index (writerPutResult stream answer promoted hash fib) := by
  unfold writerPutResult
  split
  · split
    · exact fun _ => ⟨fed, waits⟩
    · unfold writeablePutGroupEnd releaseEphemeralClaims
      intro active
      split at active <;> split at active <;> cases active
  · split
    · split
      · exact fun _ => ⟨fed.send (by simp), waits⟩
      · exact fun _ => ⟨fed, waits⟩
    · split
      · exact fun _ => ⟨fed.send (by simp), waits⟩
      · exact fun _ => ⟨fed, waits⟩

/-- What follows a tuple asks for the blocks of the next entry. -/
theorem afterTuple_feeds (entry : TupleEntry) (fed : Fed had base index stream) :
    Feeds had base index (afterTuple stream entry) := by
  unfold afterTuple
  split
  · rintro ⟨⟩
  · split
    · exact fun _ => fed.getRandomBlocks
    · rename_i idle
      unfold maybeFinalize
      split
      · rintro ⟨⟩
      · refine fun active => ⟨fed, fun waiting => absurd ⟨?_, by simp [active]⟩ idle⟩
        simpa using waiting

/-- A tuple is made of whole blocks. -/
theorem createTuple_feeds {entry : TupleEntry} (whole : entry.Whole)
    (fed : Fed had base index stream) :
    Feeds had base index (createTuple hashData stream entry) := by
  obtain ⟨type, sized⟩ := whole_foldl_bufferXor whole.1 whole.2
  unfold createTuple
  dsimp only
  rw [blockCreateExistingDataByType_of_length sized]
  apply afterTuple_feeds entry ((fed.recordCreated _).send _)
  simp only [entryPuts, mem_append, mem_map]
  split <;> simp

/-- A block that answers a pull goes to the first entry. -/
theorem recipeBlockData_feeds (whole : WholeData block.data) (fed : Fed had base index stream) :
    Feeds False stream.pullCount index (recipeBlockData hashData stream block) := by
  obtain ⟨created, records⟩ := recordDelivered_eq { stream with hasPulled := false } block.hash
  have answered : Fed False stream.pullCount index
      { stream with hasPulled := false, createdHashes := created } :=
    { fed with
      grows := le_rfl
      asked := by rintro ⟨⟩ }
  unfold recipeBlockData
  dsimp only
  rw [records]
  split
  · rename_i none_left
    exact fun _ => ⟨answered, fun waiting => absurd none_left waiting⟩
  · rename_i first rest queued
    have firstWhole := fed.whole first (by simp [queued])
    have attached : TupleEntry.Whole
        { first with randomBlocks := first.randomBlocks ++ [block] } := by
      refine ⟨firstWhole.1, fun other member => ?_⟩
      rcases mem_append.mp member with old | new
      · exact firstWhole.2 other old
      · rw [mem_singleton.mp new]
        exact whole
    have later : ∀ entry ∈ rest, entry.Whole := fun entry member =>
      fed.whole entry (by rw [queued]; exact mem_cons_of_mem _ member)
    split
    · rename_i closed
      intro active
      cases closed.symm.trans active
    · split
      · exact createTuple_feeds hashData attached { answered with whole := later }
      · exact fun _ => Fed.getRandomBlocks { answered with
          whole := by simpa using ⟨attached, later⟩ }

/-- The invariant of an open stream: the flag stands for a pull. -/
def Supplied (putting : Putting) : Prop :=
  putting.stream.isDeactivated = false →
    Fed (putting.stream.currentRecipeIndex ∈ putting.pulls) putting.stream.pullCount
      putting.stream.currentRecipeIndex putting.stream ∧ Asking putting.stream

variable {putting : Putting}

/-- A handled message keeps the invariant if its handler feeds the stream. -/
theorem Supplied.of_feeds
    (feeds : Feeds (putting.stream.currentRecipeIndex ∈ putting.pulls) putting.stream.pullCount
      putting.stream.currentRecipeIndex
      (writeableOffStreamDispatch hashData putting.stream message)) :
    Supplied (putting.dispatch hashData message) := by
  intro active
  obtain ⟨fed, waits⟩ := feeds active
  refine ⟨{ fed with
    index := rfl
    grows := le_rfl
    asked := fun pulled => .inl (mem_append.mpr ?_) }, waits⟩
  rcases fed.asked pulled with before | sent
  · left
    rw [show (putting.dispatch hashData message).stream.currentRecipeIndex = _ from fed.index]
    exact before
  · right
    rw [mem_replicate]
    exact ⟨Nat.sub_ne_zero_of_lt sent, rfl⟩

theorem isDeactivated_dispatch (closed : stream.isDeactivated = true) (message : WriterMessage) :
    (writeableOffStreamDispatch hashData stream message).isDeactivated = true := by
  cases message with
  | write data =>
    rw [writeableOffStreamDispatch, writeableWrite, if_pos closed]
    exact closed
  | finalize frand =>
    rw [writeableOffStreamDispatch, writeableFinalize, if_pos closed]
    exact closed
  | recipeBlockData block =>
    obtain ⟨created, records⟩ := recordDelivered_eq { stream with hasPulled := false } block.hash
    simp only [writeableOffStreamDispatch, recipeBlockData, records]
    split
    · exact closed
    · rw [if_pos closed]
      exact closed
  | recipeRotate =>
    simp only [writeableOffStreamDispatch, recipeRotate]
    split
    · unfold writeablePutGroupEnd
      split <;> rfl
    · unfold getRandomBlocks
      split
      · split <;> exact closed
      · exact closed
  | cachePutResult answer promoted hash fib =>
    simp only [writeableOffStreamDispatch, writerPutResult]
    split
    · rw [if_pos closed]
      exact closed
    · split <;> split <;> exact closed
  | closeStream => rfl

/-- A recipe that was not asked gives way to the next one. -/
theorem recipeRotate_supplied (supplied : Supplied putting)
    (open_ : putting.stream.isDeactivated = false)
    (unasked : EndsUnasked putting (.handle .recipeRotate)) :
    Supplied (putting.dispatch hashData .recipeRotate) := by
  obtain ⟨fed, waits⟩ := supplied open_
  simp only [Supplied, Putting.dispatch, writeableOffStreamDispatch, recipeRotate]
  split
  · unfold writeablePutGroupEnd
    split <;> rintro ⟨⟩
  · rename_i recipe next
    obtain ⟨within, _⟩ := List.getElem?_eq_some_iff.mp next
    rcases unasked with closed | idle | last
    · cases closed.symm.trans open_
    · rw [idle, if_neg Bool.false_ne_true]
      intro _
      exact ⟨{ fed with
        recipe := rfl
        index := rfl
        grows := le_rfl
        asked := by rintro ⟨⟩ }, fun waiting => idle.symm.trans (waits waiting)⟩
    · omega

theorem putStep_supplied (putting : Putting) (label : PutStep) (next : Putting)
    (supplied : Supplied putting) (unasked : EndsUnasked putting label)
    (stepped : putStep hashData putting label = some next) : Supplied next := by
  by_cases closed : putting.stream.isDeactivated = true
  · have stays (pulls : List Nat) (message : WriterMessage) :
        Supplied (({ putting with pulls := pulls } : Putting).dispatch hashData message) := by
      intro active
      cases (isDeactivated_dispatch hashData closed message).symm.trans active
    cases label with
    | handle message => cases message <;> cases stepped <;> exact stays putting.pulls _
    | deliver recipe block =>
      simp only [putStep] at stepped
      split at stepped
      · cases stepped
        exact stays _ _
      · cases stepped
  · have open_ : putting.stream.isDeactivated = false := by simpa using closed
    obtain ⟨fed, waits⟩ := supplied open_
    cases label with
    | handle message =>
      cases message with
      | write data =>
        cases stepped
        apply Supplied.of_feeds hashData
        rw [writeableOffStreamDispatch, writeableWrite, if_neg closed]
        exact fun _ => writeLoop_feeds hashData _ data { fed with } waits
      | finalize frand =>
        cases stepped
        exact .of_feeds hashData (writeableFinalize_feeds hashData frand fed waits)
      | recipeBlockData block => cases stepped
      | recipeRotate =>
        cases stepped
        exact recipeRotate_supplied hashData supplied open_ unasked
      | cachePutResult answer promoted hash fib =>
        cases stepped
        exact .of_feeds hashData (writerPutResult_feeds answer promoted hash fib fed waits)
      | closeStream =>
        cases stepped
        rintro ⟨⟩
    | deliver recipe block =>
      simp only [putStep] at stepped
      split at stepped
      · rename_i answers
        cases stepped
        have answered := recipeBlockData_feeds hashData (whole_of_created answers.2) fed
        apply Supplied.of_feeds hashData
        intro active
        obtain ⟨refed, rewaits⟩ := answered active
        exact ⟨{ refed with asked := fun pulled => .inr ((refed.asked pulled).resolve_left id) },
          rewaits⟩
      · cases stepped

/--
In every run in which a recipe ends only while it is not asked, or as the last one, a waiting
block has a pull.
-/
theorem put_never_stalls (blockType : BlockSize) (tupleSize : Nat) {recipes : List BlockRecipe}
    (some_recipe : recipes ≠ []) (hasNetwork isEphemeral : Bool) (putGroup : UInt32)
    (steps : List PutStep) (unasked : EachStep (putStep hashData) EndsUnasked
      ⟨writeableOffStreamCreate blockType tupleSize recipes hasNetwork isEphemeral putGroup, []⟩
      steps) :
    Throughout (putStep hashData) Unstalled
      ⟨writeableOffStreamCreate blockType tupleSize recipes hasNetwork isEphemeral putGroup, []⟩
      steps := by
  apply unasked.throughout (putStep_supplied hashData)
  · intro putting supplied waiting open_
    obtain ⟨fed, waits⟩ := supplied open_
    exact (fed.asked (waits waiting)).resolve_right (lt_irrefl _)
  · intro _
    refine ⟨⟨?_, rfl, by simp [writeableOffStreamCreate], le_rfl, by rintro ⟨⟩⟩, ?_⟩
    · change recipes.head?.isSome = true
      simpa using some_recipe
    · exact fun waiting => absurd rfl waiting

/-- The digest of the runs below. -/
def blankHash (_ : Bytes) : Hash :=
  ⟨List.replicate 32 0, rfl⟩

/-- A recycler ends before it is asked, and the recipe behind it is asked for new blocks. -/
theorem put_goes_on_after_unasked_end :
    Throughout (putStep blankHash) Unstalled
      ⟨writeableOffStreamCreate .nano 3 [⟨true⟩, ⟨false⟩] false false 0, []⟩
      [.handle .recipeRotate, .handle (.write [0]), .handle (.finalize fun _ => 0)] := by
  apply put_never_stalls blankHash .nano 3 (by simp) false false 0
  intro next stepped
  cases stepped
  exact ⟨.inr (.inl rfl), fun _ _ => ⟨trivial, fun _ _ => ⟨trivial, trivial⟩⟩⟩

/-- A recycler ends while it is asked: the block waits, and the recipe behind it is not asked. -/
theorem rotated_put_stalls : ∃ putting,
    [.handle (.write [0]), .handle (.finalize fun _ => 0), .handle .recipeRotate].foldlM
        (putStep blankHash)
        ⟨writeableOffStreamCreate .nano 3 [⟨true⟩, ⟨false⟩] false false 0, []⟩ = some putting ∧
    putting.stream.entries ≠ [] ∧ putting.stream.isDeactivated = false ∧
      putting.stream.currentRecipeIndex = 1 ∧ putting.pulls = [0] :=
  ⟨_, rfl, cons_ne_nil _ _, rfl, rfl, rfl⟩

end Liboffs.OffStreams
