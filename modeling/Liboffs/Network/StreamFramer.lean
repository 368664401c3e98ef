import Liboffs.Library.ByteOrder

/-!
# Frames on a stream

A frame is a payload after its length.  The reader feeds what arrives into a
buffer and takes complete frames from it until there is none.  A feed is
refused if the bytes that wait in the buffer and the new ones are more than
the largest frame, whatever frames they would complete.
-/

namespace Liboffs.Network

open Library.ByteOrder List

/-- `STREAM_FRAMER_MAX_FRAME_SIZE`. -/
def maxFrameSize : Nat := 2 * 1024 * 1024

/-- The bytes that a framer buffers at most: a frame with its length. -/
def maxBuffered : Nat := maxFrameSize + 4

/-- `stream_framer_t`, with the part of the buffer that is used. -/
structure StreamFramer where
  capacity : Nat
  buffer : Bytes
deriving DecidableEq

/-- `stream_framer_create`. -/
def streamFramerCreate : StreamFramer := ⟨256, []⟩

/-- The loop of `stream_framer_feed` that doubles the capacity, with the doublings of a `size_t`. -/
def grownCapacity (needed : Nat) : Nat → Nat → Nat
  | 0, capacity => capacity
  | doublings + 1, capacity =>
    if needed ≤ capacity then
      capacity
    else if maxBuffered < capacity then
      maxBuffered
    else
      grownCapacity needed doublings (capacity * 2)

/-- `stream_framer_feed`, unless it fails. -/
def streamFramerFeed (framer : StreamFramer) (data : Bytes) : Option StreamFramer :=
  let needed := framer.buffer.length + data.length
  let capacity := grownCapacity needed 64 framer.capacity
  if data = [] then
    some framer
  else if maxBuffered < needed then
    none
  else if capacity < needed then
    none
  else
    some ⟨capacity, framer.buffer ++ data⟩

/-- `stream_framer_next`. -/
def streamFramerNext (framer : StreamFramer) : Option (Bytes × StreamFramer) := do
  let (length, rest) ← readBigEndian 4 framer.buffer
  if maxFrameSize < length then
    none
  let (payload, remaining) ← readBytes length rest
  some (payload, { framer with buffer := remaining })

/-- `stream_frame_encode`. -/
def streamFrameEncode (data : Bytes) : Option Bytes :=
  if maxFrameSize < data.length then none else some (bigEndian 4 data.length ++ data)

/-- The calls of `stream_framer_next` until it gives nothing; a frame has at least one byte. -/
def drain : Nat → StreamFramer → List Bytes × StreamFramer
  | 0, framer => ([], framer)
  | calls + 1, framer =>
    match streamFramerNext framer with
    | none => ([], framer)
    | some (payload, rest) =>
      let later := drain calls rest
      (payload :: later.1, later.2)

/-- What a reader receives from the chunks of a stream, unless a feed fails. -/
def receiveAll : StreamFramer → List Bytes → Option (List Bytes)
  | _, [] => some []
  | framer, chunk :: chunks => do
    let fed ← streamFramerFeed framer chunk
    let drained := drain fed.buffer.length fed
    (receiveAll drained.2 chunks).map (drained.1 ++ ·)

/-- The payloads whose frames are not complete after some bytes, and how many bytes these have. -/
def unfinished : List Bytes → Nat → List Bytes × Nat
  | [], count => ([], count)
  | payload :: rest, count =>
    if 4 + payload.length ≤ count then
      unfinished rest (count - (4 + payload.length))
    else
      (payload :: rest, count)

/-- Each chunk fits into the buffer beside the frame that has begun. -/
def ChunksFit : List Bytes → Nat → List Bytes → Prop
  | _, _, [] => True
  | payloads, buffered, chunk :: chunks =>
    (chunk ≠ [] → buffered + chunk.length ≤ maxBuffered) ∧
      ChunksFit (unfinished payloads (buffered + chunk.length)).1
        (unfinished payloads (buffered + chunk.length)).2 chunks

/-- The frames of payloads, one after the other. -/
def framesOf (payloads : List Bytes) : Bytes :=
  payloads.flatMap fun payload => (streamFrameEncode payload).getD []

theorem le_grownCapacity (bounded : needed ≤ maxBuffered)
    (enough : needed ≤ capacity * 2 ^ doublings) :
    needed ≤ grownCapacity needed doublings capacity := by
  induction doublings generalizing capacity with
  | zero => simpa [grownCapacity] using enough
  | succ doublings ih =>
    rw [grownCapacity]
    split
    · assumption
    · split
      · assumption
      · apply ih
        rwa [mul_assoc, ← Nat.pow_succ']

/-- A feed of no more bytes than fit is not refused. -/
theorem streamFramerFeed_of_fits (positive : 0 < framer.capacity)
    (fits : data ≠ [] → framer.buffer.length + data.length ≤ maxBuffered) :
    ∃ capacity, 0 < capacity ∧
      streamFramerFeed framer data = some ⟨capacity, framer.buffer ++ data⟩ := by
  by_cases empty : data = []
  · exact ⟨_, positive, by simp [streamFramerFeed, empty]⟩
  · have bounded := fits empty
    have large : maxBuffered ≤ framer.capacity * 2 ^ 64 :=
      Nat.le_trans (by decide) (Nat.le_mul_of_pos_left _ positive)
    have room := le_grownCapacity bounded (bounded.trans large)
    have filled := length_pos_iff.mpr empty
    refine ⟨_, Nat.lt_of_lt_of_le (Nat.add_pos_right _ filled) room, ?_⟩
    simp [streamFramerFeed, empty, Nat.not_lt.mpr bounded, Nat.not_lt.mpr room]

section
variable {payload : Bytes} (small : payload.length ≤ maxFrameSize)
include small

theorem framesOf_cons (payloads : List Bytes) :
    framesOf (payload :: payloads) =
      bigEndian 4 payload.length ++ payload ++ framesOf payloads := by
  simp [framesOf, streamFrameEncode, not_lt.mpr small]

theorem streamFramerNext_frame :
    streamFramerNext ⟨capacity, bigEndian 4 payload.length ++ payload ++ later⟩ =
      some (payload, ⟨capacity, later⟩) := by
  have fits : payload.length < 256 ^ 4 := lt_of_le_of_lt small (by decide)
  rw [streamFramerNext, append_assoc, readBigEndian_append 4 fits]
  simp [not_lt.mpr small, readBytes_append]

/-- A frame that is not complete is not taken. -/
theorem streamFramerNext_of_lt
    (stream : buffer ++ coming = bigEndian 4 payload.length ++ payload ++ rest)
    (short : buffer.length < 4 + payload.length) : streamFramerNext ⟨capacity, buffer⟩ = none := by
  have fits : payload.length < 256 ^ 4 := lt_of_le_of_lt small (by decide)
  by_cases counted : 4 ≤ buffer.length
  · rw [append_assoc] at stream
    obtain ⟨begun, rfl⟩ : bigEndian 4 payload.length <+: buffer :=
      prefix_of_prefix_length_le ⟨_, stream.symm⟩ ⟨_, rfl⟩ (by simpa using counted)
    have less : begun.length < payload.length := by simpa using short
    rw [streamFramerNext, readBigEndian_append 4 fits]
    simp [readBytes, not_le.mpr less]
  · simp [streamFramerNext, readBigEndian, readBytes, counted]

end

/-- Draining gives the payloads that are complete and leaves the rest of the stream. -/
theorem drain_eq (small : ∀ payload ∈ payloads, payload.length ≤ maxFrameSize) (capacity : Nat)
    (enough : buffer.length ≤ calls) (stream : buffer ++ coming = framesOf payloads) :
    ∃ complete rest, drain calls ⟨capacity, buffer⟩ = (complete, ⟨capacity, rest⟩) ∧
      payloads = complete ++ (unfinished payloads buffer.length).1 ∧
      rest ++ coming = framesOf (unfinished payloads buffer.length).1 ∧
      rest.length = (unfinished payloads buffer.length).2 := by
  induction payloads generalizing calls buffer with
  | nil =>
    have empty : buffer = [] := (append_eq_nil_iff.mp stream).1
    subst empty
    refine ⟨[], [], ?_, rfl, stream, rfl⟩
    cases calls <;> rfl
  | cons payload payloads ih =>
    rw [forall_mem_cons] at small
    rw [framesOf_cons small.1] at stream
    rw [unfinished]
    split
    · rename_i whole
      obtain ⟨later, rfl⟩ : bigEndian 4 payload.length ++ payload <+: buffer :=
        prefix_of_prefix_length_le ⟨_, stream.symm⟩ ⟨_, rfl⟩ (by simpa using whole)
      simp only [append_assoc, append_cancel_left_eq] at stream
      simp only [length_append, length_bigEndian] at enough whole ⊢
      rw [Nat.add_sub_cancel_left]
      obtain ⟨calls, rfl⟩ : ∃ more, calls = more + 1 := ⟨calls - 1, by omega⟩
      rcases ih small.2 (by omega : later.length ≤ calls) stream with ⟨complete, rest, drained,
        all, left⟩
      refine ⟨payload :: complete, rest, ?_, congrArg _ all, left⟩
      rw [drain, streamFramerNext_frame small.1]
      simp [drained]
    · rename_i short
      refine ⟨[], buffer, ?_, rfl, stream.trans (framesOf_cons small.1 _).symm, rfl⟩
      cases calls with
      | zero => rfl
      | succ calls =>
        simp [drain, streamFramerNext_of_lt small.1 stream (Nat.lt_of_not_le short)]

/-- The frame that has begun is not complete. -/
theorem lt_of_unfinished (payloads : List Bytes) (count : Nat) :
    ∀ payload ∈ (unfinished payloads count).1.head?,
      (unfinished payloads count).2 < 4 + payload.length := by
  fun_induction unfinished payloads count with
  | case1 => simp
  | case2 payload rest count whole ih => exact ih
  | case3 payload rest count short => simpa using Nat.lt_of_not_le short

/-- What is received from a drained buffer on. -/
theorem receiveAll_eq_iff (small : ∀ payload ∈ payloads, payload.length ≤ maxFrameSize)
    (positive : 0 < framer.capacity) (stream : framer.buffer ++ chunks.flatten = framesOf payloads)
    (drained : ∀ payload ∈ payloads.head?, framer.buffer.length < 4 + payload.length) :
    receiveAll framer chunks = some payloads ↔ ChunksFit payloads framer.buffer.length chunks := by
  induction chunks generalizing framer payloads with
  | nil =>
    cases payloads with
    | nil => simp [receiveAll, ChunksFit]
    | cons payload payloads =>
      rw [framesOf_cons (small payload mem_cons_self)] at stream
      have length := congrArg length stream
      have short := drained payload rfl
      simp only [flatten_nil, append_nil, length_append, length_bigEndian] at length
      omega
  | cons chunk chunks ih =>
    rw [receiveAll, ChunksFit]
    by_cases fits : chunk ≠ [] → framer.buffer.length + chunk.length ≤ maxBuffered
    · rcases streamFramerFeed_of_fits positive fits with ⟨capacity, grown, fed⟩
      rw [flatten_cons, ← append_assoc] at stream
      rcases drain_eq small capacity (Nat.le_refl _) stream with
        ⟨complete, rest, taken, all, left, length⟩
      rw [length_append] at all left length
      have later := @ih _ ⟨capacity, rest⟩ (fun payload member => small payload (by
        rw [all]
        exact mem_append_right _ member)) grown left (by
        rw [length]
        exact lt_of_unfinished _ _)
      rw [length] at later
      rw [and_iff_right fits, ← later, fed]
      conv_lhs => rhs; rw [all]
      simp [-length_append, taken]
    · have refused : streamFramerFeed framer chunk = none := by
        rw [Classical.not_imp] at fits
        simp [streamFramerFeed, fits.1, Nat.lt_of_not_le fits.2]
      simp [refused, fits]

/-- The payloads come out in order exactly if each chunk fits beside the frame that has begun. -/
theorem framing_is_lossless_iff (payloads chunks : List Bytes)
    (small : ∀ payload ∈ payloads, payload.length ≤ maxFrameSize)
    (stream : chunks.flatten = framesOf payloads) :
    receiveAll streamFramerCreate chunks = some payloads ↔ ChunksFit payloads 0 chunks :=
  receiveAll_eq_iff small (by decide) stream fun _ _ =>
    Nat.lt_of_lt_of_le (by decide) (Nat.le_add_right ..)

theorem two_frames_in_two_chunks :
    receiveAll streamFramerCreate [[0, 0, 0, 1, 7, 0], [0, 0, 0]] = some [[7], []] :=
  (framing_is_lossless_iff [[7], []] _ (by decide) (by decide)).mpr (by
    simp [ChunksFit, unfinished, maxBuffered, maxFrameSize])

/-- Beside five bytes of a frame there is no room for as many bytes as a payload may have. -/
theorem receiveAll_begun (long : zeros.length = maxFrameSize) :
    receiveAll streamFramerCreate ([0, 32, 0, 0, 0] :: zeros :: chunks) = none := by
  have large : 5 ≤ maxFrameSize := by decide
  have begun : streamFramerFeed streamFramerCreate [0, 32, 0, 0, 0] =
      some ⟨256, [0, 32, 0, 0, 0]⟩ := by decide
  have waits : drain (length [(0 : UInt8), 32, 0, 0, 0]) ⟨256, [0, 32, 0, 0, 0]⟩ =
      ([], ⟨256, [0, 32, 0, 0, 0]⟩) := by decide
  have refused : streamFramerFeed ⟨256, [0, 32, 0, 0, 0]⟩ zeros = none := by
    have present : zeros ≠ [] := ne_nil_of_length_pos (by omega)
    have five : length [(0 : UInt8), 32, 0, 0, 0] = 5 := rfl
    rw [streamFramerFeed, if_neg present, if_pos]
    rw [maxBuffered, five]
    omega
  simp only [receiveAll, begun, Option.bind_eq_bind, Option.bind_some, waits, refused,
    Option.bind_none, Option.map_none]

theorem framesOf_zeros (long : zeros.length = maxFrameSize) (shift : zeros ++ [0] = 0 :: zeros) :
    [[0, 32, 0, 0, 0], zeros, [0, 0, 1, 0]].flatten = framesOf [zeros, [0]] := by
  have header : bigEndian 4 maxFrameSize = [0, 32, 0, 0] := by decide
  have last : framesOf [[0]] = [0, 0, 0, 1, 0] := by decide
  rw [framesOf_cons (Nat.le_of_eq long), long, header, last]
  simpa using congrArg (· ++ [0, 0, 1, 0]) shift.symm

/-- A chunk as long as a payload may be is refused while five bytes of its frame wait. -/
theorem chunk_is_refused :
    let payloads : List Bytes := [replicate maxFrameSize 0, [0]]
    let chunks : List Bytes := [[0, 32, 0, 0, 0], replicate maxFrameSize 0, [0, 0, 1, 0]]
    chunks.flatten = framesOf payloads ∧
      (∀ bytes ∈ payloads ++ chunks, bytes.length ≤ maxFrameSize) ∧
      receiveAll streamFramerCreate chunks ≠ some payloads := by
  have large : 5 ≤ maxFrameSize := by decide
  obtain ⟨zeros, same⟩ : ∃ zeros, zeros = replicate maxFrameSize (0 : UInt8) := ⟨_, rfl⟩
  have long : zeros.length = maxFrameSize := by rw [same, length_replicate]
  have shift : zeros ++ [0] = 0 :: zeros := by
    rw [same]
    exact replicate_succ'.symm.trans replicate_succ
  rw [← same]
  refine ⟨framesOf_zeros long shift, ?_, ?_⟩
  · simp [long]
    omega
  · rw [receiveAll_begun long]
    exact nofun

/-- A frame that is taken is taken whatever stands behind it. -/
theorem streamFramerNext_eq_some
    (taken : streamFramerNext ⟨capacity, buffer⟩ = some (payload, rest)) :
    ∃ front later, rest = ⟨capacity, later⟩ ∧ buffer = front ++ later ∧ front ≠ [] ∧
      ∀ capacity more,
        streamFramerNext ⟨capacity, front ++ more⟩ = some (payload, ⟨capacity, more⟩) := by
  by_cases counted : 4 ≤ buffer.length
  · simp only [streamFramerNext, readBigEndian, readBytes, counted, if_true, Option.map_some,
      Option.bind_eq_bind, Option.bind_some] at taken
    split at taken
    · cases taken
    · rename_i bounded
      split at taken
      · rename_i whole
        cases taken
        have length : (buffer.take 4).length = 4 := length_take_of_le counted
        refine ⟨buffer.take (4 + ofBigEndian (buffer.take 4)), _, rfl, ?_, ?_,
          fun capacity more => ?_⟩
        · rw [drop_drop, take_append_drop]
        · exact ne_nil_of_length_pos (by rw [length_take]; omega)
        · have size : ((buffer.drop 4).take (ofBigEndian (buffer.take 4))).length =
              ofBigEndian (buffer.take 4) := length_take_of_le whole
          rw [take_add, append_assoc, streamFramerNext, readBigEndian, readBytes_append length]
          simp [bounded, readBytes_append size]
      · cases taken
  · simp [streamFramerNext, readBigEndian, readBytes, counted] at taken

theorem streamFramerNext_eq_none (capacity : Nat) (waits : streamFramerNext framer = none) :
    streamFramerNext ⟨capacity, framer.buffer⟩ = none := by
  by_contra taken
  obtain ⟨⟨payload, rest⟩, taken⟩ := Option.ne_none_iff_exists'.mp taken
  obtain ⟨front, later, _, split, _, again⟩ := streamFramerNext_eq_some taken
  have found := again framer.capacity later
  rw [← split] at found
  exact Option.some_ne_none _ (found.symm.trans waits)

theorem drain_of_le (capacity : Nat) (enough : buffer.length ≤ calls) (more : calls ≤ total) :
    drain total ⟨capacity, buffer⟩ = drain calls ⟨capacity, buffer⟩ := by
  induction calls generalizing buffer total with
  | zero =>
    obtain rfl := length_eq_zero_iff.mp (Nat.le_zero.mp enough)
    cases total <;> rfl
  | succ calls ih =>
    obtain ⟨total, rfl⟩ : ∃ fewer, total = fewer + 1 := ⟨total - 1, by omega⟩
    rw [drain, drain]
    cases taken : streamFramerNext ⟨capacity, buffer⟩ with
    | none => rfl
    | some frame =>
      obtain ⟨payload, rest⟩ := frame
      obtain ⟨front, later, rfl, rfl, begun, _⟩ := streamFramerNext_eq_some taken
      have positive := length_pos_iff.mpr begun
      rw [length_append] at enough
      simp only
      rw [ih (by omega) (Nat.le_of_succ_le_succ more)]

/-- Bytes that come later are drained as if they had been there. -/
theorem drain_append (data : Bytes) (capacity other : Nat) (enough : buffer.length ≤ calls)
    (all : buffer.length + data.length ≤ total) :
    ∃ complete rest left, drain calls ⟨capacity, buffer⟩ = (complete, ⟨capacity, rest⟩) ∧
      streamFramerNext ⟨capacity, rest⟩ = none ∧ rest.length + data.length ≤ left ∧
      drain total ⟨other, buffer ++ data⟩ =
        (complete ++ (drain left ⟨other, rest ++ data⟩).1,
          (drain left ⟨other, rest ++ data⟩).2) := by
  induction calls generalizing buffer total with
  | zero =>
    obtain rfl := length_eq_zero_iff.mp (Nat.le_zero.mp enough)
    exact ⟨[], [], total, rfl, rfl, all, rfl⟩
  | succ calls ih =>
    cases taken : streamFramerNext ⟨capacity, buffer⟩ with
    | none => exact ⟨[], buffer, total, by simp [drain, taken], taken, all, rfl⟩
    | some frame =>
      obtain ⟨payload, rest⟩ := frame
      obtain ⟨front, later, rfl, rfl, more, again⟩ := streamFramerNext_eq_some taken
      have positive := length_pos_iff.mpr more
      rw [length_append] at enough all
      obtain ⟨total, rfl⟩ : ∃ fewer, total = fewer + 1 := ⟨total - 1, by omega⟩
      obtain ⟨complete, rest, left, drained, waits, fits, same⟩ :=
        @ih total later (by omega) (by omega)
      refine ⟨payload :: complete, rest, left, by simp [drain, taken, drained], waits, fits, ?_⟩
      rw [append_assoc, drain, again]
      simp only
      rw [same]
      rfl

/-- What is left of bytes that come at once, without the frames that they complete. -/
def leftover (bytes : Bytes) : Bytes :=
  (drain bytes.length ⟨256, bytes⟩).2.buffer

theorem leftover_of_waits (waits : streamFramerNext framer = none) :
    leftover framer.buffer = framer.buffer := by
  rw [leftover]
  cases framer.buffer.length with
  | zero => rfl
  | succ calls => rw [drain, streamFramerNext_eq_none 256 waits]

/-- A chunk does not fit into the buffer beside what is left of those before it. -/
def Overflows (begun : Bytes) (chunks : List Bytes) : Prop :=
  ∃ before chunk after, chunks = before ++ chunk :: after ∧ chunk ≠ [] ∧
    maxBuffered < (leftover (begun ++ before.flatten)).length + chunk.length

theorem overflows_cons (waits : streamFramerNext framer = none) :
    Overflows framer.buffer (chunk :: chunks) ↔
      (chunk ≠ [] ∧ maxBuffered < framer.buffer.length + chunk.length) ∨
        Overflows (framer.buffer ++ chunk) chunks := by
  constructor
  · rintro ⟨before, other, after, split, more, large⟩
    cases before with
    | nil =>
      cases split
      rw [flatten_nil, append_nil, leftover_of_waits waits] at large
      exact .inl ⟨more, large⟩
    | cons first before =>
      cases split
      rw [flatten_cons, ← append_assoc] at large
      exact .inr ⟨before, other, after, rfl, more, large⟩
  · rintro (⟨more, large⟩ | ⟨before, other, after, rfl, more, large⟩)
    · refine ⟨[], chunk, chunks, rfl, more, ?_⟩
      rwa [flatten_nil, append_nil, leftover_of_waits waits]
    · refine ⟨chunk :: before, other, after, rfl, more, ?_⟩
      rwa [flatten_cons, ← append_assoc]

/-- What is left does not depend on when the complete frames are taken. -/
theorem overflows_of_drained (drained : drain buffer.length ⟨capacity, buffer⟩ = (complete, rest)) :
    Overflows buffer chunks ↔ Overflows rest.buffer chunks := by
  have same (data : Bytes) : leftover (buffer ++ data) = leftover (rest.buffer ++ data) := by
    obtain ⟨complete, rest, left, again, _, fits, both⟩ :=
      drain_append data capacity 256 (Nat.le_refl _) (Nat.le_of_eq length_append.symm)
    cases drained.symm.trans again
    rw [leftover, both, leftover, drain_of_le 256 (Nat.le_refl _) (by rwa [length_append])]
  simp only [Overflows, same]

/-- What a reader receives is what all its bytes give at once. -/
theorem receiveAll_of_drained (capacity : Nat) (positive : 0 < framer.capacity)
    (waits : streamFramerNext framer = none)
    (enough : framer.buffer.length + chunks.flatten.length ≤ calls) :
    (Overflows framer.buffer chunks ∧ receiveAll framer chunks = none) ∨
      (¬ Overflows framer.buffer chunks ∧ receiveAll framer chunks =
        some (drain calls ⟨capacity, framer.buffer ++ chunks.flatten⟩).1) := by
  induction chunks generalizing framer calls with
  | nil =>
    refine .inr ⟨?_, ?_⟩
    · rintro ⟨before, chunk, after, split, _⟩
      simp at split
    · rw [flatten_nil, append_nil]
      cases calls with
      | zero => rfl
      | succ calls =>
        rw [drain, streamFramerNext_eq_none capacity waits]
        rfl
  | cons chunk chunks ih =>
    rw [overflows_cons waits, receiveAll]
    by_cases large : chunk ≠ [] ∧ maxBuffered < framer.buffer.length + chunk.length
    · refine .inl ⟨.inl large, ?_⟩
      simp [streamFramerFeed, large]
    · obtain ⟨room, grown, fed⟩ := streamFramerFeed_of_fits positive fun more =>
        Nat.le_of_not_lt fun exceeds => large ⟨more, exceeds⟩
      rw [flatten_cons, length_append, ← Nat.add_assoc, ← length_append] at enough
      obtain ⟨complete, rest, left, drained, waits, fits, same⟩ :=
        drain_append chunks.flatten room capacity (Nat.le_refl _) enough
      rw [or_iff_right large, overflows_of_drained drained, flatten_cons, ← append_assoc, same, fed]
      rcases @ih ⟨room, rest⟩ _ grown waits fits with ⟨exceeds, refused⟩ | ⟨fine, received⟩
      · exact .inl ⟨exceeds, by simp [-length_append, drained, refused]⟩
      · exact .inr ⟨fine, by simp [-length_append, drained, received]⟩

/--
The frames that are received are those of all bytes at once, whatever these are; the chunks only
decide whether one of them does not fit into the buffer.
-/
theorem chunks_do_not_matter (chunks : List Bytes) :
    (Overflows [] chunks ∧ receiveAll streamFramerCreate chunks = none) ∨
      (¬ Overflows [] chunks ∧ receiveAll streamFramerCreate chunks =
        some (drain chunks.flatten.length ⟨256, chunks.flatten⟩).1) := by
  have waits : streamFramerNext streamFramerCreate = none := by decide
  exact receiveAll_of_drained 256 (by decide) waits (Nat.le_of_eq (Nat.zero_add _))

end Liboffs.Network
