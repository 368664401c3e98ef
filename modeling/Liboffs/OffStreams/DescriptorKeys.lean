import Liboffs.OffStreams.ReadableDescriptor

/-!
# A block of the descriptor, hash by hash

The loops of the readable descriptor cut a block into hashes and fill tuples
with them.  For a file that is read from its front the two loops are one pass
over the hashes of the block: each is taken for the tuple, up to the last one
of the block, which names the next block, or up to the last one of the file.
-/

namespace Liboffs.OffStreams

open Library Library.ByteOrder List Option ReadableDescriptor

/-- A stream that reads a file from its front. -/
structure FromFront (desc : ReadableDescriptor) : Prop where
  offset : desc.offsetTuple = 0
  remainder : desc.offsetRemainder = none
  pad : desc.descriptorPad = 32
  size : 0 < desc.ori.tupleSize

/-- A tuple with one more hash. -/
def pushKey (desc : ReadableDescriptor) (key : Bytes) : ReadableDescriptor :=
  { desc with currentTuple := some (desc.tuple ++ [key]) }

/-- One more hash of the file. -/
def takeKey (desc : ReadableDescriptor) (key : Bytes) : ReadableDescriptor :=
  if (desc.tuple ++ [key]).length = desc.ori.tupleSize then
    if desc.tupleCount ≤ desc.tupleCounter + 1 then
      completeTuples (notifyTuple (pushKey desc key))
    else
      notifyTuple (pushKey desc key)
  else
    pushKey desc key

/-- The hashes of a block, the last of which names the next block. -/
def readKeys : ReadableDescriptor → List Bytes → ReadableDescriptor × Bool
  | desc, [] => (desc, false)
  | desc, [link] =>
    ({ desc with currentTuple := some desc.tuple, nextDescriptorHash := some link }, true)
  | desc, key :: next :: rest =>
    if (takeKey desc key).isDeactivated then
      (takeKey desc key, false)
    else
      readKeys (takeKey desc key) (next :: rest)

/-- Buffers of the length of a hash. -/
def Keys (keys : List Bytes) : Prop :=
  ∀ key ∈ keys, key.length = 32

variable {key data : Bytes} {keys : List Bytes}

theorem Keys.head (sized : Keys (key :: keys)) : key.length = 32 :=
  sized key mem_cons_self

theorem Keys.tail (sized : Keys (key :: keys)) : Keys keys :=
  fun other among => sized other (mem_cons_of_mem _ among)

theorem Keys.of_append (sized : Keys (left ++ right)) : Keys left ∧ Keys right :=
  ⟨fun key among => sized key (mem_append_left _ among),
    fun key among => sized key (mem_append_right _ among)⟩

theorem Keys.append (first : Keys left) (second : Keys right) : Keys (left ++ right) := by
  intro key among
  rcases mem_append.mp among with before | behind
  · exact first key before
  · exact second key behind

theorem Keys.length_flatten (sized : Keys keys) : keys.flatten.length = 32 * keys.length := by
  induction keys with
  | nil => rfl
  | cons key keys ih =>
    rw [flatten_cons, length_append, sized.head, ih sized.tail, length_cons]
    omega

/-- What is behind a hash, as the loops keep it. -/
def restOf (keys : List Bytes) : Option Bytes :=
  if keys = [] then none else some keys.flatten

theorem Keys.flatten_isEmpty (sized : Keys keys) : keys.flatten.isEmpty = keys.isEmpty := by
  cases keys with
  | nil => rfl
  | cons key keys =>
    rw [isEmpty_cons, isEmpty_eq_false_iff]
    intro empty
    have length := sized.length_flatten
    rw [empty] at length
    simp at length

section
variable {desc : ReadableDescriptor} (front : FromFront desc)
include front

/-- Without an offset the next hash is at the front. -/
theorem FromFront.moveToOffset_eq (sized : Keys (key :: keys)) :
    moveToOffset desc (key :: keys).flatten = (desc, some key, restOf keys) := by
  have whole : (key :: keys).flatten.length = 32 + keys.flatten.length := by
    rw [flatten_cons, length_append, sized.head]
  have first : bufferSlice (key :: keys).flatten 0 32 = some key := by
    rw [bufferSlice, if_pos ⟨by omega, by omega⟩, drop_zero,
      Nat.sub_zero, flatten_cons, ← sized.head, take_left']
    rfl
  have behind : bufferRest (key :: keys).flatten 32 = restOf keys := by
    rw [bufferRest, restOf, whole]
    cases keys with
    | nil => rfl
    | cons next rest =>
      have length := sized.tail.length_flatten
      rw [length_cons] at length
      have split : (key :: next :: rest).flatten = key ++ (next :: rest).flatten := rfl
      rw [if_pos (by omega), if_neg (cons_ne_nil _ _), bufferSlice,
        if_pos ⟨by omega, by omega⟩, split, ← sized.head, drop_left, take_of_length_le]
      omega
  simp only [moveToOffset, front.remainder, front.offset, front.pad,
    getD_none, length_nil, lt_self_iff_false, false_and, if_false]
  rw [first, behind]

theorem FromFront.with_tuple (tuple : Option (List Bytes)) :
    FromFront { desc with currentTuple := tuple } :=
  { front with }

theorem FromFront.pushKey (key : Bytes) : FromFront (pushKey desc key) :=
  { front with }

theorem FromFront.notifyTuple : FromFront (notifyTuple desc) :=
  { front with }

end

/-- A tuple that has not been begun is an empty one. -/
theorem readKeys_with_tuple (desc : ReadableDescriptor) (more : keys ≠ []) :
    readKeys { desc with currentTuple := some desc.tuple } keys = readKeys desc keys := by
  match keys, more with
  | [link], _ => rfl
  | key :: next :: rest, _ => rfl

variable {desc : ReadableDescriptor}

/-- The loop cuts off the first hash of the block. -/
theorem FromFront.processLoop_succ (front : FromFront desc) (active : desc.isDeactivated = false)
    (sized : Keys (key :: keys)) (rounds : Nat) :
    processLoop (rounds + 1) desc (some (key :: keys).flatten) = afterFill (processLoop rounds)
        (fillLoop (rounds + 1) { desc with currentTuple := some desc.tuple }
          (some key) (restOf keys)) := by
  have goes : ¬ ((key :: keys).flatten.isEmpty = true ∨ desc.isDeactivated = true) := by
    rw [sized.flatten_isEmpty, active]
    simp
  have moved := (front.with_tuple (some desc.tuple)).moveToOffset_eq sized
  rw [processLoop, getD_some, if_neg goes, moved]

/-- The loops from a hash on that has been cut off. -/
theorem afterFill_eq (keys : List Bytes) (key : Bytes) (desc : ReadableDescriptor)
    (fill rounds : Nat) (front : FromFront desc) (active : desc.isDeactivated = false)
    (begun : desc.currentTuple = some desc.tuple) (partly : desc.tuple.length < desc.ori.tupleSize)
    (sized : Keys (key :: keys)) (enough : keys.length < fill) (bounded : keys.length ≤ rounds) :
    afterFill (processLoop rounds) (fillLoop fill desc (some key) (restOf keys)) =
      some (readKeys desc (key :: keys)) := by
  induction keys generalizing key desc fill rounds with
  | nil =>
    cases fill with
    | zero => cases enough
    | succ fill =>
      rw [fillLoop, if_pos partly]
      simp only [restOf, if_true, getD_none, isEmpty_nil, afterFill, readKeys]
      rw [← begun]
  | cons next rest ih =>
    cases fill with
    | zero => cases enough
    | succ fill =>
      have rest_eq : (restOf (next :: rest)).getD [] = (next :: rest).flatten := by
        unfold restOf
        split
        · rename_i empty
          rw [empty]
          rfl
        · rfl
      have filled : ((restOf (next :: rest)).getD []).isEmpty = false := by
        rw [rest_eq, sized.tail.flatten_isEmpty]
        rfl
      have unfolded : fillLoop (fill + 1) desc (some key) (restOf (next :: rest)) =
          if (desc.tuple ++ [key]).length = desc.ori.tupleSize then
            some (.full (pushKey desc key) (restOf (next :: rest)))
          else
            fillLoop fill (pushKey desc key) (some next) (restOf rest) := by
        rw [fillLoop, if_pos partly, filled]
        simp only [reduceCtorEq, if_false]
        rw [rest_eq]
        have moved := (front.pushKey key).moveToOffset_eq sized.tail
        simp only [pushKey] at moved
        rw [moved]
        rfl
      rw [unfolded, readKeys]
      by_cases full : (desc.tuple ++ [key]).length = desc.ori.tupleSize
      · rw [if_pos full, afterFill]
        have whole : (pushKey desc key).tuple.length = (pushKey desc key).ori.tupleSize := full
        rw [if_pos whole]
        by_cases last : desc.tupleCount ≤ desc.tupleCounter + 1
        · have taken : takeKey desc key = completeTuples (notifyTuple (pushKey desc key)) := by
            rw [takeKey, if_pos full, if_pos last]
          rw [taken]
          exact if_pos last
        · have taken : takeKey desc key = notifyTuple (pushKey desc key) := by
            rw [takeKey, if_pos full, if_neg last]
          have still : (takeKey desc key).isDeactivated = false := by
            rw [taken]
            exact active
          have further : ¬ (notifyTuple (pushKey desc key)).tupleCount ≤
              (notifyTuple (pushKey desc key)).tupleCounter := last
          simp only [still, reduceCtorEq, if_false]
          rw [if_neg further, taken]
          cases rounds with
          | zero => cases bounded
          | succ rounds =>
            have kept := (front.pushKey key).notifyTuple
            rw [restOf, if_neg (cons_ne_nil _ _), kept.processLoop_succ active sized.tail]
            refine (ih next _ (rounds + 1) rounds
                (kept.with_tuple (some [])) active rfl front.size sized.tail
                (by rw [length_cons] at bounded; omega) (Nat.le_of_succ_le_succ bounded)).trans ?_
            exact congrArg some (readKeys_with_tuple _ (cons_ne_nil _ _))
      · have taken : takeKey desc key = pushKey desc key := by
          rw [takeKey, if_neg full]
        have still : (takeKey desc key).isDeactivated = false := by
          rw [taken]
          exact active
        rw [if_neg full, if_neg (by rw [still]; exact Bool.false_ne_true), taken]
        apply ih next (pushKey desc key) fill rounds
          (front.pushKey key) active rfl _ sized.tail (by rw [length_cons] at enough; omega)
          (by rw [length_cons] at bounded; omega)
        have longer : (desc.tuple ++ [key]).length ≤ desc.ori.tupleSize := by
          rw [length_append]
          exact partly
        exact lt_of_le_of_ne longer full

/-- The loop over a block reads its hashes. -/
theorem processLoop_eq (front : FromFront desc) (active : desc.isDeactivated = false)
    (partly : desc.tuple.length < desc.ori.tupleSize) (sized : Keys keys) (more : keys ≠ [])
    (bounded : keys.length ≤ rounds) :
    processLoop rounds desc (some keys.flatten) = some (readKeys desc keys) := by
  match keys, more, rounds with
  | key :: keys, _, 0 => cases bounded
  | key :: keys, _, rounds + 1 =>
    rw [front.processLoop_succ active sized, afterFill_eq keys key _ (rounds + 1) rounds
      (front.with_tuple (some desc.tuple)) active rfl partly sized (Nat.lt_of_succ_le bounded)
      (Nat.le_of_succ_le_succ bounded), readKeys_with_tuple _ (cons_ne_nil _ _)]

/-- Where no other block is needed, none is asked for. -/
theorem descriptorBlock_of_done {read : ReadableDescriptor}
    (done : processDescriptor desc data = some (read, false)) :
    descriptorBlock desc data = some read := by
  rw [descriptorBlock, done]
  cases next : read.nextDescriptorHash <;> simp [next]

/-- The events among what has been sent. -/
def tupleEvents (sent : List DescriptorReaderEffect) : List (StreamEvent (List Bytes)) :=
  sent.filterMap fun
    | .notify event => some event
    | _ => none

/-- The hashes that the cache has been asked for. -/
def requestedHashes (sent : List DescriptorReaderEffect) : List Bytes :=
  sent.filterMap fun
    | .blockCacheGet hash => some hash
    | _ => none

/-- A stream in the middle of a file: the hashes that it keeps and those left make up the rest. -/
structure Awaiting (cutPoint : Nat) (tuples : List (List Bytes))
    (left requested : List Bytes) (desc : ReadableDescriptor) : Prop where
  front : FromFront desc
  active : desc.isDeactivated = false
  partly : desc.tuple.length < desc.ori.tupleSize
  cut : desc.cutPoint = cutPoint
  unread : desc.currentDescriptor = none
  whole : desc.ori.descriptorOffset = 0
  count : desc.tupleCount = tuples.length
  sized : ∀ tuple ∈ tuples, tuple.length = desc.ori.tupleSize
  asked : requestedHashes desc.sent = requested
  split : ∃ before behind,
    tuples = before ++ behind ∧ tupleEvents desc.sent = before.map .data ∧
    desc.tupleCounter = before.length ∧ desc.tuple ++ left = behind.flatten

namespace Awaiting

variable {cutPoint : Nat} {tuples : List (List Bytes)}
  {left requested : List Bytes} {desc : ReadableDescriptor}

theorem filled {tuple : List Bytes} {behind : List (List Bytes)}
    (size : tuple.length = desc.ori.tupleSize)
    (full : (desc.tuple ++ [key]).length = desc.ori.tupleSize)
    (rest : desc.tuple ++ key :: left = tuple ++ behind.flatten) :
    tuple = desc.tuple ++ [key] ∧ left = behind.flatten := by
  have equal : (desc.tuple ++ [key]) ++ left = tuple ++ behind.flatten := by
    rw [← rest]
    simp
  obtain ⟨same, same'⟩ := append_inj equal (full.trans size.symm)
  exact ⟨same.symm, same'⟩

section
variable (awaiting : Awaiting cutPoint tuples (key :: left) requested desc)
include awaiting

/-- The tuple that is being filled is the next one to be sent. -/
theorem next_tuple :
    ∃ before tuple behind, tuples = before ++ tuple :: behind ∧
      tupleEvents desc.sent = before.map .data ∧ desc.tupleCounter = before.length ∧
      tuple.length = desc.ori.tupleSize ∧ desc.tuple ++ key :: left = tuple ++ behind.flatten := by
  obtain ⟨before, behind, apart, events, counter, rest⟩ := awaiting.split
  cases behind with
  | nil => simp at rest
  | cons tuple behind =>
    refine ⟨before, tuple, behind, apart, events, counter, ?_, rest⟩
    apply awaiting.sized
    rw [apart]
    exact mem_append_right _ mem_cons_self

/-- One more hash, which is not the last one of the file. -/
theorem takeKey (more : left ≠ []) :
    Awaiting cutPoint tuples left requested (takeKey desc key) := by
  obtain ⟨before, tuple, behind, apart, events, counter, size, rest⟩ := awaiting.next_tuple
  by_cases full : (desc.tuple ++ [key]).length = desc.ori.tupleSize
  · obtain ⟨same, remain⟩ := filled size full rest
    have further : ¬ desc.tupleCount ≤ desc.tupleCounter + 1 := by
      cases behind with
      | nil => exact absurd remain more
      | cons =>
        rw [awaiting.count, counter, apart]
        simp
    rw [OffStreams.takeKey, if_pos full, if_neg further]
    refine ⟨(awaiting.front.pushKey key).notifyTuple, awaiting.active,
      awaiting.front.size, awaiting.cut, awaiting.unread, awaiting.whole, awaiting.count,
      awaiting.sized, ?_, before ++ [tuple], behind, ?_, ?_, ?_, remain⟩
    · rw [← awaiting.asked]
      simp [notifyTuple, ReadableDescriptor.send, requestedHashes, pushKey]
    · rw [apart]
      simp
    · have sent : tupleEvents (notifyTuple (pushKey desc key)).sent =
          tupleEvents desc.sent ++ [.data (desc.tuple ++ [key])] := by
        simp [notifyTuple, ReadableDescriptor.send, tupleEvents, pushKey, ReadableDescriptor.tuple]
      rw [sent, events, same]
      simp
    · change desc.tupleCounter + 1 = _
      rw [counter]
      simp
  · rw [OffStreams.takeKey, if_neg full]
    have shorter : (desc.tuple ++ [key]).length ≤ desc.ori.tupleSize := by
      rw [length_append]
      exact awaiting.partly
    refine ⟨awaiting.front.pushKey key, awaiting.active, lt_of_le_of_ne shorter full,
      awaiting.cut, awaiting.unread, awaiting.whole, awaiting.count, awaiting.sized, awaiting.asked,
      before, tuple :: behind, apart, events, counter, ?_⟩
    rw [flatten_cons, ← rest]
    simp [pushKey, ReadableDescriptor.tuple]

end

/-- The last hash of the file, or what is taken for it. -/
theorem last (awaiting : Awaiting cutPoint tuples [key] requested desc) :
    ∃ before, tuples = before ++ [desc.tuple ++ [key]] ∧
      ∀ other, (OffStreams.takeKey desc other).isDeactivated = true ∧
        requestedHashes (OffStreams.takeKey desc other).sent = requested ∧
        tupleEvents (OffStreams.takeKey desc other).sent = before.map .data ++
            [.data (desc.tuple ++ [other]), .complete, .close] := by
  obtain ⟨before, tuple, behind, apart, events, counter, size, rest⟩ := awaiting.next_tuple
  have long : desc.ori.tupleSize ≤ (desc.tuple ++ [key]).length := by
    rw [rest, length_append, size]
    exact Nat.le_add_right _ _
  have full : (desc.tuple ++ [key]).length = desc.ori.tupleSize := by
    apply le_antisymm _ long
    rw [length_append]
    exact awaiting.partly
  obtain ⟨same, remain⟩ := filled size full rest
  have none : behind = [] := by
    cases behind with
    | nil => rfl
    | cons other behind =>
      have sized := awaiting.sized other (by
        rw [apart]
        simp)
      have positive := awaiting.front.size
      have empty := congrArg List.length remain
      rw [flatten_cons, length_append, sized] at empty
      simp only [length_nil] at empty
      omega
  refine ⟨before, by rw [apart, none, same], ?_⟩
  intro other
  have filledBy : (desc.tuple ++ [other]).length = desc.ori.tupleSize := by
    rw [← full]
    simp
  have final : desc.tupleCount ≤ desc.tupleCounter + 1 := by
    rw [awaiting.count, counter, apart, none]
    simp
  rw [OffStreams.takeKey, if_pos filledBy, if_pos final]
  refine ⟨rfl, ?_, ?_⟩
  · rw [← awaiting.asked]
    simp [completeTuples, notifyTuple, ReadableDescriptor.send, requestedHashes, pushKey]
  · rw [← events]
    simp [completeTuples, notifyTuple, ReadableDescriptor.send, tupleEvents,
      pushKey, ReadableDescriptor.tuple]

/-- A block with hashes of the file and the link to the next block. -/
theorem readKeys_link (keys : List Bytes) (link : Bytes)
    (awaiting : Awaiting cutPoint tuples (keys ++ left) requested desc) (more : left ≠ []) :
    ∃ read, readKeys desc (keys ++ [link]) = (read, true) ∧ read.nextDescriptorHash = some link ∧
      Awaiting cutPoint tuples left requested read := by
  induction keys generalizing desc with
  | nil =>
    refine ⟨_, rfl, rfl, ?_⟩
    have front := awaiting.front
    exact { awaiting with front := ⟨front.offset, front.remainder, front.pad, front.size⟩ }
  | cons key keys ih =>
    have further : keys ++ left ≠ [] := by
      intro empty
      exact more (append_eq_nil_iff.mp empty).2
    have taken := awaiting.takeKey further
    obtain ⟨read, equal, next, awaits⟩ := ih taken
    refine ⟨read, ?_, next, awaits⟩
    rw [← equal]
    cases keys with
    | nil =>
      simp [readKeys, taken.active]
    | cons second keys =>
      simp [readKeys, taken.active]

/-- A block with the last hashes of the file and room behind them. -/
theorem readKeys_end (keys : List Bytes) (key : Bytes) (zeros : List Bytes)
    (awaiting : Awaiting cutPoint tuples (keys ++ [key]) requested desc) (room : zeros ≠ []) :
    ∃ read, readKeys desc (keys ++ key :: zeros) = (read, false) ∧
      requestedHashes read.sent = requested ∧
      tupleEvents read.sent = tuples.map .data ++ [.complete, .close] := by
  induction keys generalizing desc with
  | nil =>
    obtain ⟨before, apart, taken⟩ := awaiting.last
    obtain ⟨deactivated, asked, events⟩ := taken key
    refine ⟨OffStreams.takeKey desc key, ?_, asked, ?_⟩
    · match zeros, room with
      | zero :: zeros, _ => rw [nil_append, readKeys, if_pos deactivated]
    · rw [events, apart]
      simp
  | cons first keys ih =>
    have further : keys ++ [key] ≠ [] := by simp
    have taken := awaiting.takeKey further
    obtain ⟨read, equal, rest⟩ := ih taken
    refine ⟨read, ?_, rest⟩
    rw [← equal]
    cases keys with
    | nil =>
      simp [readKeys, taken.active]
    | cons second keys =>
      simp [readKeys, taken.active]

/-- The first bytes of a block, cut into hashes. -/
theorem processDescriptor_eq (awaiting : Awaiting cutPoint tuples left requested desc)
    (sized : Keys keys) (more : keys ≠ [])
    (cut : bufferSlice data 0 desc.cutPoint = some keys.flatten) :
    processDescriptor desc data = some (readKeys desc keys) := by
  have part : descriptorPart desc data = some keys.flatten := by
    rw [descriptorPart, awaiting.unread, awaiting.whole]
    exact cut
  have same : { desc with currentDescriptor := none } = desc := by rw [← awaiting.unread]
  rw [processDescriptor, part, same, awaiting.front.remainder]
  apply processLoop_eq awaiting.front awaiting.active awaiting.partly sized more
  rw [getD_some, sized.length_flatten]
  omega

/-- A block with a link is followed. -/
theorem descriptorBlock_link (keys : List Bytes) (link : Bytes)
    (awaiting : Awaiting cutPoint tuples (keys ++ left) requested desc)
    (more : left ≠ []) (sized : Keys (keys ++ [link]))
    (cut : bufferSlice data 0 cutPoint = some (keys ++ [link]).flatten) :
    ∃ read, descriptorBlock desc data = some read ∧ read.expectedHash = some link ∧
      Awaiting cutPoint tuples left (requested ++ [link]) read := by
  obtain ⟨read, equal, next, awaits⟩ := awaiting.readKeys_link keys link more
  have front := awaits.front
  refine ⟨fetchDescriptorBlock { read with nextDescriptorHash := none } link,
    ?_, rfl, { front with }, awaits.active, awaits.partly, awaits.cut, awaits.unread, awaits.whole,
    awaits.count, awaits.sized, ?_, ?_⟩
  · rw [← awaiting.cut] at cut
    rw [descriptorBlock, awaiting.processDescriptor_eq sized (by simp) cut, equal]
    simp [next, awaits.active]
  · rw [← awaits.asked]
    simp [fetchDescriptorBlock, send, requestedHashes]
  · obtain ⟨before, behind, apart, events, rest⟩ := awaits.split
    refine ⟨before, behind, apart, ?_, rest⟩
    rw [← events]
    simp [fetchDescriptorBlock, send, tupleEvents]

end Awaiting

end Liboffs.OffStreams
