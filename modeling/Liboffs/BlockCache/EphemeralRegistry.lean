import Liboffs.Library.ByteOrder
import Liboffs.Library.Runs

/-!
# The files of the ephemeral registry

The registry keeps its filter in a current, a backup and a temporary file.  A
flush writes and syncs the temporary file, removes the backup, makes the
current file the backup and the temporary file the current one.  Every call
may fail, and the process may stop before any of them and load again.

The filter and its encoding are arbitrary, and so are the additions and
removals that change it.  What a call has done survives a crash.  A load
changes no file, so that a crash during a load is one more restart.
-/

namespace Liboffs.BlockCache

open Library.ByteOrder Library.Runs

/-- How a filter is encoded and serialized, and how bytes are parsed and decoded. -/
structure FilterCodec (Filter : Type) where
  encode : Filter → Option Bytes
  decode : Bytes → Option Filter

/-- The contents of the three files, where they exist. -/
structure RegistryFiles where
  current : Option Bytes
  backup : Option Bytes
  temp : Option Bytes

/-- The call that a flush makes next. -/
inductive FlushCall where
  | openTemp
  | writeTemp (data : Bytes)
  | syncTemp (whole : Bool)
  | unlinkBackup
  | renameCurrent
  | renameTemp
  | unlinkTemp
deriving DecidableEq

/-- The registry between two calls; `flushed` is the filter of the last completed flush. -/
structure EphemeralRegistry (Filter : Type) where
  filter : Filter
  flushing : Option FlushCall := none
  files : RegistryFiles := ⟨none, none, none⟩
  flushed : Option Filter := none

/-- An addition or removal that changed the filter, a call of the flush, or a crash and a load. -/
inductive RegistryEvent (Filter : Type) where
  | change (filter : Filter)
  | call (works : Bool) (written : Nat)
  | restart

variable {Filter : Type} (codec : FilterCodec Filter) (fresh : Filter)
  (registry : EphemeralRegistry Filter)

/-- `_registry_flush`, call by call. -/
def registryFlush (works : Bool) (written : Nat) : FlushCall → EphemeralRegistry Filter
  | .openTemp =>
    match codec.encode registry.filter with
    | none => { registry with flushing := none }
    | some data =>
      if works then
        { registry with files.temp := some [], flushing := some (.writeTemp data) }
      else { registry with flushing := none }
  | .writeTemp data =>
    { registry with
      files.temp := some (data.take written)
      flushing := some (.syncTemp (data.length ≤ written)) }
  | .syncTemp whole =>
    { registry with flushing := some (if whole && works then .unlinkBackup else .unlinkTemp) }
  | .unlinkBackup =>
    { registry with
      files.backup := if works then none else registry.files.backup
      flushing := some .renameCurrent }
  | .renameCurrent =>
    match registry.files.current with
    | none => { registry with flushing := some .renameTemp }
    | some data =>
      if works then
        { registry with
          files := { registry.files with current := none, backup := some data }
          flushing := some .renameTemp }
      else { registry with flushing := some .unlinkTemp }
  | .renameTemp =>
    if works then
      { registry with
        files := { registry.files with current := registry.files.temp, temp := none }
        flushing := none
        flushed := some registry.filter }
    else { registry with flushing := some .unlinkTemp }
  | .unlinkTemp =>
    { registry with
      files.temp := if works then none else registry.files.temp
      flushing := none }

/-- `_registry_load_filter`: an empty file is no filter. -/
def registryLoadFilter : Option Bytes → Option Filter
  | none | some [] => none
  | some data => codec.decode data

/-- The filter that `ephemeral_registry_create` starts with. -/
def ephemeralRegistryCreate (files : RegistryFiles) : Filter :=
  ((registryLoadFilter codec files.current).or (registryLoadFilter codec files.backup)).getD fresh

/-- One event; the actor takes no message while it flushes. -/
def registryStep : RegistryEvent Filter → Option (EphemeralRegistry Filter)
  | .change filter =>
    if registry.flushing.isNone then
      some { registry with filter, flushing := some .openTemp }
    else none
  | .call works written => registry.flushing.map (registryFlush codec registry works written)
  | .restart =>
    some { registry with
      filter := ephemeralRegistryCreate codec fresh registry.files
      flushing := none }

/-- What a file that holds the encoding of a filter is loaded as. -/
def FilterCodec.restored (filter : Filter) : Option Filter :=
  registryLoadFilter codec (codec.encode filter)

/-- A restart loads what was flushed last, or what is being flushed. -/
def Reloads : RegistryEvent Filter → Prop
  | .restart =>
    let loaded := some (ephemeralRegistryCreate codec fresh registry.files)
    registry.flushed.elim (some fresh) codec.restored = loaded ∨
      registry.flushing.isSome ∧ codec.restored registry.filter = loaded
  | _ => True

instance [DecidableEq Filter] : ∀ event, Decidable (Reloads codec fresh registry event)
  | .restart => inferInstanceAs (Decidable (_ ∨ _))
  | .change _ | .call _ _ => .isTrue trivial

/-- A filter was flushed, and neither the current nor the backup file exists. -/
def Exposed : Prop :=
  registry.flushed.isSome ∧ registry.files.current = none ∧ registry.files.backup = none

instance : Decidable (Exposed registry) :=
  inferInstanceAs (Decidable (_ ∧ _))

/-- The encoding of a filter can be loaded, and while the registry is exposed there is no crash
and the last rename works. -/
def Guarded : RegistryEvent Filter → Prop
  | .change filter => (codec.encode filter).isSome → (codec.restored filter).isSome
  | .call works _ => registry.flushing = some .renameTemp → Exposed registry → works
  | .restart => ¬ Exposed registry

instance : ∀ event, Decidable (Guarded codec registry event)
  | .change _ | .call _ _ => inferInstanceAs (Decidable (_ → _))
  | .restart => inferInstanceAs (Decidable (¬ _))

/-- The file is loaded, and as the filter is. -/
def FilterCodec.Holds (file : Option Bytes) (filter : Filter) : Prop :=
  registryLoadFilter codec file = codec.restored filter ∧ (codec.restored filter).isSome

/-- What the next call of a flush relies on. -/
def Staged : Option FlushCall → Prop
  | some .openTemp =>
    (codec.encode registry.filter).isSome → (codec.restored registry.filter).isSome
  | some (.writeTemp data) =>
    codec.encode registry.filter = some data ∧ (codec.restored registry.filter).isSome
  | some (.syncTemp true) | some .unlinkBackup | some .renameCurrent =>
    codec.Holds registry.files.temp registry.filter
  | some .renameTemp =>
    codec.Holds registry.files.temp registry.filter ∧ registry.files.current = none
  | _ => True

/-- The flush has removed the backup and not yet made the current file. -/
def Midway (flushing : Option FlushCall) : Prop :=
  flushing = some .renameCurrent ∨ flushing = some .renameTemp

/-- Where the filter of the last completed flush is. -/
def Kept (current backup : Option Bytes) (flushing : Option FlushCall) : Option Filter → Prop
  | none => current = none ∧ backup = none
  | some filter => codec.Holds current filter ∨ current = none ∧ (codec.Holds backup filter ∨
    backup = none ∧ Midway flushing)

/-- The invariant of the registry. -/
structure RegistrySound : Prop where
  staged : Staged codec registry registry.flushing
  kept : Kept codec registry.files.current registry.files.backup registry.flushing registry.flushed

variable {codec fresh registry}

theorem Kept.move (kept : Kept codec current backup flushing flushed)
    (carried : flushed.isSome → current = none → backup = none → Midway flushing → Midway later) :
    Kept codec current backup later flushed := by
  cases flushed with
  | none => exact kept
  | some filter =>
    rcases kept with held | ⟨missing, held | ⟨removed, midway⟩⟩
    · exact .inl held
    · exact .inr ⟨missing, .inl held⟩
    · exact .inr ⟨missing, .inr ⟨removed, carried rfl missing removed midway⟩⟩

/-- The backup goes while the current file is there, or the renames follow. -/
theorem Kept.unlinkBackup (kept : Kept codec current backup (some .unlinkBackup) flushed)
    (works : Bool) :
    Kept codec current (if works then none else backup) (some .renameCurrent) flushed := by
  cases flushed with
  | none => exact ⟨kept.1, by simp [kept.2]⟩
  | some filter =>
    rcases kept with held | ⟨missing, held | ⟨_, midway⟩⟩
    · exact .inl held
    · cases works with
      | false => exact .inr ⟨missing, .inl held⟩
      | true => exact .inr ⟨missing, .inr ⟨rfl, .inl rfl⟩⟩
    · simp [Midway] at midway

theorem Kept.renameCurrent (kept : Kept codec (some data) backup flushing flushed) :
    Kept codec none (some data) (some .renameTemp) flushed := by
  cases flushed with
  | none => cases kept.1
  | some filter => exact .inr ⟨rfl, .inl (kept.resolve_right fun missing => nomatch missing.1)⟩

section
variable (sound : RegistrySound codec registry)
include sound

theorem RegistrySound.call {call : FlushCall} {works : Bool} {written : Nat}
    (at_call : registry.flushing = some call)
    (guarded : Guarded codec registry (.call works written)) :
    RegistrySound codec (registryFlush codec registry works written call) := by
  have staged := sound.staged
  have kept := sound.kept
  rw [at_call] at staged kept
  cases call with
  | openTemp =>
    cases encoded : codec.encode registry.filter with
    | none => simpa [registryFlush, encoded] using ⟨trivial, kept.move (by simp [Midway])⟩
    | some data =>
      cases works with
      | false => simpa [registryFlush, encoded] using ⟨trivial, kept.move (by simp [Midway])⟩
      | true =>
        simpa [registryFlush, encoded] using
          ⟨⟨encoded, staged (by simp [encoded])⟩, kept.move (by simp [Midway])⟩
  | writeTemp data =>
    refine ⟨?_, kept.move (by simp [Midway])⟩
    by_cases whole : data.length ≤ written
    · simpa [registryFlush, whole, Staged, FilterCodec.Holds, List.take_of_length_le whole,
        FilterCodec.restored, staged.1] using staged.2
    · simp [registryFlush, whole, Staged]
  | syncTemp whole =>
    refine ⟨?_, kept.move (by simp [Midway])⟩
    cases whole <;> cases works <;> trivial
  | unlinkBackup => exact ⟨staged, kept.unlinkBackup works⟩
  | renameCurrent =>
    cases there : registry.files.current with
    | none =>
      simpa [registryFlush, there] using ⟨⟨staged, there⟩, kept.move fun _ _ _ _ => .inr rfl⟩
    | some data =>
      rw [there] at kept
      cases works with
      | false => simpa [registryFlush, there] using ⟨trivial, there ▸ kept.move (by simp)⟩
      | true => simpa [registryFlush, there] using ⟨⟨staged, rfl⟩, kept.renameCurrent⟩
  | renameTemp =>
    cases works with
    | false => exact ⟨trivial, kept.move (fun flushed missing removed _ =>
        nomatch guarded at_call ⟨flushed, missing, removed⟩)⟩
    | true => exact ⟨trivial, .inl staged.1⟩
  | unlinkTemp => exact ⟨trivial, kept.move (by simp [Midway])⟩

theorem RegistrySound.step (guarded : Guarded codec registry event)
    (stepped : registryStep codec fresh registry event = some next) : RegistrySound codec next := by
  cases event with
  | change filter =>
    rcases Option.ite_none_right_eq_some.mp stepped with ⟨idle, ⟨⟩⟩
    exact ⟨guarded, sound.kept.move (by simp [Midway, Option.isNone_iff_eq_none.mp idle])⟩
  | call works written =>
    rcases Option.map_eq_some_iff.mp stepped with ⟨call, at_call, rfl⟩
    exact sound.call at_call guarded
  | restart =>
    cases stepped
    exact ⟨trivial, sound.kept.move fun flushed missing removed =>
      absurd ⟨flushed, missing, removed⟩ guarded⟩

/-- A sound registry that is not exposed is loaded as it was flushed. -/
theorem RegistrySound.restores (guarded : Guarded codec registry event) :
    Reloads codec fresh registry event := by
  cases event with
  | change filter => trivial
  | call works written => trivial
  | restart =>
    left
    have kept := sound.kept
    cases flushed : registry.flushed with
    | none =>
      rw [flushed] at kept
      simp [ephemeralRegistryCreate, kept.1, kept.2, registryLoadFilter]
    | some filter =>
      rw [flushed] at kept
      rcases kept with held | ⟨missing, held | ⟨removed, -⟩⟩
      · rcases Option.isSome_iff_exists.mp held.2 with ⟨loaded, restored⟩
        simp [ephemeralRegistryCreate, held.1, restored]
      · rcases Option.isSome_iff_exists.mp held.2 with ⟨loaded, restored⟩
        rw [ephemeralRegistryCreate, missing, held.1]
        simp [restored, registryLoadFilter]
      · exact absurd ⟨by simp [flushed], missing, removed⟩ guarded

end

/-- A filter of one byte. -/
def byteCodec : FilterCodec UInt8 where
  encode byte := some [byte]
  decode data := data.head?

/-- The calls of a flush that all work, up to the last rename. -/
def workingCalls (count : Nat) : List (RegistryEvent UInt8) :=
  .replicate count (.call true 1)

end Liboffs.BlockCache
