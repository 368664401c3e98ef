import Liboffs.OffStreams.DescriptorRoundTrip

/-!
# The progress of a readable descriptor

Whatever is in the blocks, a readable descriptor only adds to what it has
sent, and an answer leads to one more request at most.  A descriptor that
reads its tuples over a store therefore makes one request after the other, and
at every moment its events are the first ones of those it sends in all.
-/

namespace Liboffs.OffStreams

open BlockCache Library Library.ByteOrder Library.Pages Library.StoreWalks List Option

@[simp]
theorem sent_moveToOffset (desc : ReadableDescriptor) (descriptor : Bytes) :
    (moveToOffset desc descriptor).1.sent = desc.sent := by
  simp [moveToOffset, apply_ite Prod.fst, apply_ite ReadableDescriptor.sent]

/-- The stream with which the inner loop is left. -/
def TupleFill.stream : TupleFill → ReadableDescriptor
  | .full desc _ => desc
  | .more desc => desc
  | .stopped desc => desc

variable {desc next : ReadableDescriptor}

theorem sent_fillLoop (filled : fillLoop rounds desc key current = some fill) :
    fill.stream.sent = desc.sent := by
  induction rounds generalizing desc key current with
  | zero => cases filled
  | succ rounds ih =>
    unfold fillLoop at filled
    split at filled
    · split at filled
      · cases key with
        | none | some =>
          cases filled
          rfl
      · cases key with
        | none => cases filled
        | some key =>
          dsimp only at filled
          split at filled
          · cases filled
            rfl
          · rw [ih filled, sent_moveToOffset]
    · cases filled
      rfl

/-- The stream has only notified its subscribers. -/
def Notifies (desc next : ReadableDescriptor) : Prop :=
  ∃ events : List (StreamEvent (List Bytes)), next.sent = desc.sent ++ events.map .notify

theorem Notifies.of_eq (same : next.sent = desc.sent) : Notifies desc next :=
  ⟨[], by rw [same, map_nil, append_nil]⟩

theorem Notifies.trans (before : Notifies first second) (after : Notifies second third) :
    Notifies first third := by
  rcases before with ⟨events, sent⟩
  rcases after with ⟨others, sent'⟩
  refine ⟨events ++ others, ?_⟩
  rw [sent', sent, map_append, append_assoc]

theorem notifies_notifyTuple (desc : ReadableDescriptor) : Notifies desc (notifyTuple desc) :=
  ⟨[.data desc.tuple], rfl⟩

theorem notifies_processLoop (processed : processLoop rounds desc current = some (next, more)) :
    Notifies desc next := by
  induction rounds generalizing desc current with
  | zero => cases processed
  | succ rounds ih =>
    rw [processLoop] at processed
    split at processed
    · cases processed
      exact .of_eq rfl
    · have begun := sent_moveToOffset
        { desc with currentTuple := some desc.tuple } (current.getD [])
      generalize moveToOffset { desc with currentTuple := some desc.tuple }
        (current.getD []) = moved at processed begun
      cases filled : fillLoop (rounds + 1) moved.1 moved.2.1 moved.2.2 with
      | none =>
        simp only [filled] at processed
        cases processed
      | some fill =>
        simp only [filled] at processed
        have kept := (sent_fillLoop filled).trans begun
        cases fill with
        | more | stopped =>
          cases processed
          exact .of_eq kept
        | full filling left =>
          have same : Notifies desc filling := .of_eq kept
          rw [afterFill] at processed
          split at processed
          · dsimp only at processed
            split at processed
            · cases processed
              exact (same.trans (notifies_notifyTuple filling)).trans (⟨[.complete, .close], rfl⟩)
            · exact (same.trans (notifies_notifyTuple filling)).trans (ih processed)
          · exact same.trans (ih processed)

/-- The stream has notified its subscribers and asked for a block at most. -/
def AsksOnce (desc next : ReadableDescriptor) : Prop :=
  ∃ (events : List (StreamEvent (List Bytes))) (fetches : List Bytes),
    next.sent = desc.sent ++ (events.map .notify ++ fetches.map .blockCacheGet) ∧ fetches.length ≤ 1

theorem Notifies.asksOnce (notifies : Notifies desc next) : AsksOnce desc next := by
  rcases notifies with ⟨events, sent⟩
  refine ⟨events, [], ?_, Nat.zero_le 1⟩
  rw [sent, map_nil, append_nil]

theorem asksOnce_descriptorBlock
    (read : descriptorBlock desc data = some next) : AsksOnce desc next := by
  unfold descriptorBlock at read
  cases processed : processDescriptor desc data with
  | none =>
    rw [processed] at read
    cases read
  | some result =>
    rcases result with ⟨stream, more⟩
    have started : Notifies desc { desc with currentDescriptor := none } := .of_eq rfl
    have notifies := started.trans (notifies_processLoop processed)
    rw [processed] at read
    cases link : stream.nextDescriptorHash with
    | none =>
      simp only [bind_eq_bind, bind_some, link] at read
      cases read
      exact notifies.asksOnce
    | some hash =>
      simp only [bind_eq_bind, bind_some, link] at read
      split at read
      · cases read
        rcases notifies with ⟨events, sent⟩
        refine ⟨events, [hash], ?_, le_refl 1⟩
        simp only [fetchDescriptorBlock, ReadableDescriptor.send]
        rw [sent, append_assoc]
        rfl
      · cases read
        exact notifies.asksOnce

/-- A block that is there leads to one request at most. -/
theorem asksOnce_descriptorGetResult {hash : Bytes}
    (read : descriptorGetResult desc hash (some data) = some next) : AsksOnce desc next := by
  unfold descriptorGetResult at read
  split at read
  · cases read
    exact (Notifies.of_eq rfl).asksOnce
  · split at read
    · cases read
      exact (Notifies.of_eq rfl).asksOnce
    · have asks : AsksOnce (expectNothing desc) next :=
        asksOnce_descriptorBlock read
      exact asks

/-- The blocks that the descriptor asks the network for. -/
def descriptorFindsOf (effects : List DescriptorReaderEffect) : List Bytes :=
  effects.filterMap fun
    | .findBlock hash => some hash
    | _ => none

@[simp]
theorem tupleEvents_notify (events : List (StreamEvent (List Bytes))) :
    tupleEvents (events.map .notify) = events := by
  simp [tupleEvents, filterMap_map]

@[simp]
theorem tupleEvents_gets (hashes : List Bytes) : tupleEvents (hashes.map .blockCacheGet) = [] := by
  simp [tupleEvents, filterMap_map]

/-- The events that an answer adds. -/
theorem AsksOnce.tupleEvents_eq (asks : AsksOnce desc next) :
    ∃ events, tupleEvents next.sent = tupleEvents desc.sent ++ events := by
  rcases asks with ⟨events, fetches, sent, _⟩
  refine ⟨events, ?_⟩
  rw [sent, tupleEvents, filterMap_append, filterMap_append,
    ← tupleEvents, ← tupleEvents, ← tupleEvents, tupleEvents_notify, tupleEvents_gets, append_nil]

/-- The events so far are the first ones of those that are sent in all. -/
theorem Progress.isPrefix (progress : Progress store events rounds reading) :
    tupleEvents reading.state.sent <+: events := by
  induction progress with
  | ended answered sent => exact ⟨[], by rw [append_nil, sent]⟩
  | asking asked stored read later ih =>
    rcases (asksOnce_descriptorGetResult read).tupleEvents_eq with ⟨added, sent⟩
    apply List.IsPrefix.trans _ ih
    rw [sent]
    exact prefix_append _ _

/-- A written descriptor whose last page has room is read to its end. -/
theorem Fresh.progress (hashData : Bytes → Hash) (fresh : Fresh stream)
    (pad : stream.descriptorPad = 32) (more : descriptorKeys tuples ≠ [])
    (linkable : stream.blockType = .nano →
      (descriptorKeys tuples).length ≤ hashesPerBlock stream.blockType)
    (sized : ∀ tuple ∈ tuples, tuple.hashes.length = stream.tupleSize)
    (counted : fileTuples stream.blockType finalByte = tuples.length)
    (room : ¬ LastFull (hashesPerBlock stream.blockType) (descriptorKeys tuples).length)
    (wrote : writeDescriptor hashData stream tuples = some written)
    (holds : HoldsChain store (putBlocks written.sent)) (hasNetwork : Bool) :
    ∃ rounds, Progress store ((tuples.map tupleKeys).map .data ++ [.complete, .close]) rounds
      (startReading (frontOri stream finalByte (publishedHash written.sent))
        stream.descriptorPad hasNetwork) := by
  obtain ⟨pages, other, hash, paged, wrote', _, published, named, chain⟩ :=
    fresh.stored_chain hashData pad more linkable sized (by
      intro other wrote'
      cases wrote.symm.trans wrote'
      exact holds)
  cases wrote.symm.trans wrote'
  rw [published]
  exact ((waiting_startReading pad more sized counted hasNetwork hash).chain
    paged (keys_descriptorKeys tuples) chain named).1 room

end Liboffs.OffStreams
