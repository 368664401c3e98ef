import Liboffs.BlockCache.Entry

/-!
# The write-ahead log of the index

A log file is a sequence of records: a type, the checksum of the payload, and the payload, whose
size the type determines.  An added or incremented entry that does not verify is tried in an
older, shorter form, which then stays in force.

The reader compares its position, except at the first record, with the size of the file in a
signed 32-bit integer.  The action of a record is a parameter.
-/

namespace Liboffs.BlockCache

open Library.ByteOrder List Option

/-- `wal_type_e`. -/
inductive WalType where
  | addition
  | removal
  | increment
  | ejection
  | metadata
deriving DecidableEq

def WalType.byte : WalType → UInt8
  | .addition => 0x61
  | .removal => 0x72
  | .increment => 0x69
  | .ejection => 0x65
  | .metadata => 0x6d

def WalType.ofByte (byte : UInt8) : Option WalType :=
  if byte = 0x61 then some .addition
  else if byte = 0x72 then some .removal
  else if byte = 0x69 then some .increment
  else if byte = 0x65 then some .ejection
  else if byte = 0x6d then some .metadata
  else none

@[simp]
theorem WalType.ofByte_byte (type : WalType) : WalType.ofByte type.byte = some type := by
  cases type <;> rfl

/-- The size of a payload, which depends on the form of the entries. -/
def payloadSize (legacy : Bool) : WalType → Nat
  | .addition | .increment => if legacy then 78 else 86
  | .metadata => 86
  | .ejection => 44
  | .removal => 34

/-- Whether a record that does not verify is tried in the older form. -/
def retriesLegacy (legacy : Bool) : WalType → Bool
  | .addition | .increment => !legacy
  | _ => false

/-- The checksum of a payload as it stands in the file. -/
def crcBytes (xxh32 : Bytes → UInt32) (payload : Bytes) : Bytes :=
  bigEndian 4 (xxh32 payload).toNat

@[simp]
theorem length_crcBytes (xxh32 : Bytes → UInt32) (payload : Bytes) :
    (crcBytes xxh32 payload).length = 4 := by
  simp [crcBytes]

/-- The bytes that `wal_write` appends. -/
def walRecord (xxh32 : Bytes → UInt32) (type : WalType) (payload : Bytes) : Bytes :=
  type.byte :: (crcBytes xxh32 payload ++ payload)

/-- Why the replay of a log ended. -/
inductive WalStop where
  | endOfLog
  | shortType
  | shortCrc
  | shortPayload
  | badCrc
  | unknownType
  | pastSize
deriving DecidableEq

/-- A record that was read, with its size and the form in force after it. -/
structure WalEntry where
  type : WalType
  payload : Bytes
  size : Nat
  legacy : Bool
deriving DecidableEq

/-- `_wal_read_entry_payload` at the older size. -/
def walReadEntryPayload (xxh32 : Bytes → UInt32) (type : WalType) (crc rest : Bytes) :
    Except WalStop WalEntry :=
  match readBytes 78 rest with
  | none => .error .shortPayload
  | some (payload, _) =>
    if crc = crcBytes xxh32 payload then
      .ok { type, payload, size := 83, legacy := true }
    else
      .error .badCrc

/-- `wal_read` behind the check of the position. -/
def walRead (xxh32 : Bytes → UInt32) (legacy : Bool) : Bytes → Except WalStop WalEntry
  | [] => .error .shortType
  | byte :: bytes =>
    match readBytes 4 bytes with
    | none => .error .shortCrc
    | some (crc, rest) =>
      match WalType.ofByte byte with
      | none => .error .unknownType
      | some type =>
        match readBytes (payloadSize legacy type) rest with
        | none =>
          if retriesLegacy legacy type then
            walReadEntryPayload xxh32 type crc rest
          else
            .error .shortPayload
        | some (payload, _) =>
          if crc = crcBytes xxh32 payload then
            .ok { type, payload, size := 5 + payloadSize legacy type, legacy }
          else if retriesLegacy legacy type then
            walReadEntryPayload xxh32 type crc rest
          else
            .error .badCrc

/-- A written record is read back, whatever follows it. -/
theorem walRead_walRecord (xxh32 : Bytes → UInt32) (size : payload.length = payloadSize false type)
    (rest : Bytes) :
    walRead xxh32 false (walRecord xxh32 type payload ++ rest) =
      .ok { type, payload, size := 5 + payload.length, legacy := false } := by
  simp only [walRecord, cons_append, append_assoc, walRead]
  rw [readBytes_append (length_crcBytes xxh32 payload)]
  simp only [WalType.ofByte_byte]
  rw [readBytes_append size]
  simp [size]

/-- The file size as the reader compares with it: `(uint64_t)(int32_t)`. -/
def walSizeField (size : Nat) : Nat :=
  if size % 2 ^ 32 < 2 ^ 31 then
    size % 2 ^ 32
  else
    size % 2 ^ 32 + (2 ^ 64 - 2 ^ 32)

section
variable {State : Type*} (xxh32 : Bytes → UInt32) (action : State → WalType → Bytes → Option State)

/-- The loop of `_index_replay_wal`; the size is not looked at before the first record. -/
def walReplayFrom (walSize : Nat) :
    Nat → (first : Bool) → (cursor : Nat) → (legacy : Bool) → Bytes →
      State → Option (State × WalStop × Bool)
  | 0, _, _, legacy, _, state => some (state, .endOfLog, legacy)
  | fuel + 1, first, cursor, legacy, rest, state =>
    if first = false ∧ walSize ≤ cursor then
      some (state, .endOfLog, legacy)
    else
      match walRead xxh32 legacy rest with
      | .error stop => some (state, stop, legacy)
      | .ok entry =>
        if cursor + entry.size ≤ walSize then
          (action state entry.type entry.payload).bind
            (walReplayFrom walSize fuel false (cursor + entry.size)
              entry.legacy (rest.drop entry.size))
        else
          some (state, .pastSize, entry.legacy)

/-- The records of a file applied in order, with the reason of the end. -/
def walReplay (file : Bytes) (state : State) : Option (State × WalStop × Bool) :=
  walReplayFrom xxh32 action (walSizeField file.length) (file.length + 1) true 0 false file state

end

/-- A type with a payload. -/
abbrev Frame := WalType × Bytes

/-- A payload has the size of its type. -/
def Frame.Sized (frame : Frame) : Prop :=
  frame.2.length = payloadSize false frame.1

/-- The bytes of several records. -/
def walLog (xxh32 : Bytes → UInt32) (frames : List Frame) : Bytes :=
  frames.flatMap fun frame => walRecord xxh32 frame.1 frame.2

section
variable (xxh32 : Bytes → UInt32)
include xxh32

@[simp]
theorem walLog_nil : walLog xxh32 [] = [] := rfl

@[simp]
theorem walLog_cons (frame : Frame) (frames : List Frame) :
    walLog xxh32 (frame :: frames) = walRecord xxh32 frame.1 frame.2 ++ walLog xxh32 frames := rfl

@[simp]
theorem walLog_append (first second : List Frame) :
    walLog xxh32 (first ++ second) = walLog xxh32 first ++ walLog xxh32 second := by
  simp [walLog]

@[simp]
theorem length_walRecord (type : WalType) (payload : Bytes) :
    (walRecord xxh32 type payload).length = 5 + payload.length := by
  simp only [walRecord, length_cons, length_append, length_crcBytes]
  omega

theorem length_le_length_walLog (frames : List Frame) :
    frames.length ≤ (walLog xxh32 frames).length := by
  induction frames with
  | nil => exact le_refl 0
  | cons frame rest ih =>
    simp only [walLog_cons, length_append, length_cons, length_walRecord]
    omega

end

/-- No complete record starts at the beginning of these bytes. -/
def Damaged (xxh32 : Bytes → UInt32) (tail : Bytes) : Prop :=
  ∃ stop, walRead xxh32 false tail = .error stop

theorem damaged_nil : Damaged xxh32 [] :=
  ⟨.shortType, rfl⟩

variable {tail : Bytes} {stop : WalStop}

section
variable {State : Type*} (xxh32 : Bytes → UInt32) (action : State → WalType → Bytes → Option State)

/-- The action of several records in order. -/
def actAll (state : State) (frames : List Frame) : Option State :=
  frames.foldlM (fun current frame => action current frame.1 frame.2) state

@[simp]
theorem actAll_nil : actAll action state [] = some state := rfl

theorem actAll_cons (state : State) (frame : Frame) :
    actAll action state (frame :: frames) = (action state frame.1 frame.2).bind fun next =>
        actAll action next frames := rfl

/-- The loop acts on the written records and goes on behind them. -/
theorem walReplayFrom_walLog (walSize fuel : Nat) (frames : List Frame)
    (sized : ∀ frame ∈ frames, frame.Sized) (first : Bool) (cursor : Nat) (tail : Bytes)
    (state : State) (inside : cursor + (walLog xxh32 frames).length ≤ walSize) :
    walReplayFrom xxh32 action walSize (fuel + frames.length) first cursor
        false (walLog xxh32 frames ++ tail) state =
      (actAll action state frames).bind (walReplayFrom xxh32 action walSize fuel
          (first && frames.isEmpty) (cursor + (walLog xxh32 frames).length) false tail) := by
  induction frames generalizing first cursor state with
  | nil => simp [actAll]
  | cons frame rest ih =>
    simp only [walLog_cons, length_append, length_walRecord] at inside
    have later : ¬ (first = false ∧ walSize ≤ cursor) := by omega
    have read := walRead_walRecord xxh32 (sized frame (mem_cons_self)) (walLog xxh32 rest ++ tail)
    simp only [length_cons, walLog_cons, append_assoc, ← add_assoc]
    rw [walReplayFrom, if_neg later, read]
    simp only
    rw [if_pos (by omega), actAll_cons, drop_left' (length_walRecord xxh32 frame.1 frame.2)]
    cases action state frame.1 frame.2 with
    | none => rfl
    | some next =>
      simp only [bind_some, isEmpty_cons, Bool.and_false]
      rw [ih (fun other member => sized other (mem_cons_of_mem _ member)) _ _ _ (by omega)]
      simp [add_assoc]

/-- How the replay of written records and a damaged rest ends. -/
theorem walReplayFrom_damaged (walSize fuel : Nat) (first : Bool) (cursor : Nat) (state : State)
    (damaged : walRead xxh32 false tail = .error stop) :
    walReplayFrom xxh32 action walSize (fuel + 1) first cursor false tail state = some (state,
        if first = false ∧ walSize ≤ cursor then .endOfLog else stop,
        false) := by
  rw [walReplayFrom, damaged]
  split <;> rfl

/-- The replay of written records with a damaged rest acts on these, if the size fits its field. -/
theorem walReplay_walLog {frames : List Frame} (sized : ∀ frame ∈ frames, frame.Sized)
    (damaged : walRead xxh32 false tail = .error stop)
    (fits : (walLog xxh32 frames ++ tail).length ≤
      walSizeField (walLog xxh32 frames ++ tail).length) :
    walReplay xxh32 action (walLog xxh32 frames ++ tail) state =
      (actAll action state frames).map fun final =>
        (final,
          if frames ≠ [] ∧
              walSizeField (walLog xxh32 frames ++ tail).length ≤ (walLog xxh32 frames).length then
            .endOfLog
          else
            stop,
          false) := by
  have enough := length_le_length_walLog xxh32 frames
  obtain ⟨fuel, fuelEq⟩ : ∃ fuel, (walLog xxh32 frames ++ tail).length + 1 =
        fuel + 1 + frames.length := by
    refine ⟨(walLog xxh32 frames ++ tail).length - frames.length, ?_⟩
    simp only [length_append]
    omega
  rw [walReplay, fuelEq, walReplayFrom_walLog xxh32 action _ _ frames sized]
  · cases actAll action state frames with
    | none => rfl
    | some final =>
      rw [bind_some, walReplayFrom_damaged xxh32 action _ _ _ _ _ damaged]
      simp
  · refine le_trans ?_ fits
    simp

end

end Liboffs.BlockCache
