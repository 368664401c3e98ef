import Liboffs.Library.Runs
import Liboffs.Update.Extract

/-!
# The update actor

The update actor looks for a newer release, downloads and extracts it into a
staging directory, waits until the streams of the node are closed, and then
executes the updater that it finds in the staging directory.  A release has a
manifest that is signed with the release key and lists the hashes of its
archives.

What the network and the file system do is given with each message.
-/

namespace Liboffs.Update

open Library.ByteOrder Library.Runs List Option Function Files

/-! ## Releases -/

/-- `manifest_file_t`. -/
structure ManifestFile where
  path : Bytes
  sha256 : Bytes
  size : Nat

/-- `update_manifest_t`. -/
structure Manifest where
  releaseTag : Bytes
  files : List ManifestFile

/-- The check of a signature, the reading of a manifest, and the hash of a file. -/
structure ReleaseKey where
  verify : Bytes → Bytes → Bool
  parse : Bytes → Option Manifest
  sha256 : Bytes → Bytes

/-- The release that the server names, and whether it is newer. -/
structure Release where
  tagName : Bytes
  newer : Bool
  downloadUrl : Bytes

/-- What a check receives; a manifest comes with its signature. -/
structure Fetched where
  release : Option Release
  manifest : Option (Bytes × Bytes)

/-- `update_info_t`. -/
structure UpdateInfo where
  tagName : Bytes
  downloadUrl : Bytes
  manifest : Manifest
  available : Bool

/-- `update_manifest_fetch`. -/
def updateManifestFetch (key : ReleaseKey) (fetched : Fetched) : Option Manifest :=
  match fetched.manifest with
  | some (data, signature) => if key.verify signature data then key.parse data else none
  | none => none

/-- `update_check_fetch`. -/
def updateCheckFetch (key : ReleaseKey) (fetched : Fetched) : Option UpdateInfo :=
  match fetched.release with
  | none => none
  | some release =>
    (updateManifestFetch key fetched).map fun manifest =>
      { tagName := release.tagName
        downloadUrl := release.downloadUrl
        manifest := manifest
        available := release.newer }

/-- `update_manifest_find_file`. -/
def updateManifestFindFile (manifest : Manifest) (path : Bytes) : Option ManifestFile :=
  manifest.files.find? fun file => file.path == path

/-! ## Downloads -/

/-- `OFFS_MAX_EXTRACT_BYTES`. -/
def maxExtractBytes : Nat := 1024 * 1024 * 1024

/-- `update.tar.gz`. -/
def archivePath : FilePath :=
  [[117, 112, 100, 97, 116, 101, 46, 116, 97, 114, 46, 103, 122]]

/-- `offs-updater`. -/
def updaterPath : FilePath :=
  [[111, 102, 102, 115, 45, 117, 112, 100, 97, 116, 101, 114]]

/--
What happens in a download: the directory, the bytes, the hash, the file system at each entry, and
the removal.
-/
structure DownloadOutcome where
  directory : Bool
  received : Option Bytes
  hashed : Bool
  io : Nat → EntryOutcome
  removed : Bool

/-- The asset that a URL names: its last segment. -/
def assetName (url : Bytes) : Bytes :=
  (url.splitOn 47).getLast?.getD url

def archiveListed (key : ReleaseKey) (info : UpdateInfo) (archive : Bytes) : Bool :=
  match updateManifestFindFile info.manifest (assetName info.downloadUrl) with
  | some entry => key.sha256 archive == entry.sha256
  | none => false

def extractedArchive (key : ReleaseKey) (info : UpdateInfo)
    (outcome : DownloadOutcome) : Option Bytes :=
  if info.downloadUrl ≠ [] ∧ outcome.directory then
    outcome.received.filter fun archive => outcome.hashed && archiveListed key info archive
  else
    none

/-- The staging directory with the archive removed, if that works. -/
def Files.removeArchive (files : Files) (removed : Bool) : Files :=
  if removed then files.unlink archivePath else files

/-- `update_download`. -/
def updateDownload (key : ReleaseKey) (info : UpdateInfo)
    (outcome : DownloadOutcome) (staging : Files) : Bool × Files :=
  if info.downloadUrl ≠ [] ∧ outcome.directory then
    match outcome.received with
    | none => (false, staging)
    | some archive =>
      let written := staging.write archivePath archive
      if outcome.hashed && archiveListed key info archive then
        let extracted := updateExtract outcome.io maxExtractBytes archive written
        (extracted.1, extracted.2.removeArchive outcome.removed)
      else
        (false, written.removeArchive outcome.removed)
  else
    (false, staging)

/-! ## The actor -/

/-- `update_state_e`. -/
inductive UpdateState where
  | idle
  | checking
  | downloading
  | staged
  | draining
  | applying
  | failed
deriving DecidableEq

/-- What the actor sends to itself, at once or by a timer. -/
inductive Posted where
  | apply
  | drainTick

/--
`update_actor_t` and its staging directory, with the successful checks, the last one, the
executions, and the end of the process.
-/
structure UpdateSystem where
  state : UpdateState
  pending : Option UpdateInfo
  drainStartMs : UInt64
  drainTimeoutMs : UInt64
  posted : List Posted
  staging : Files
  successes : Nat
  lastSucceeded : Bool
  executions : Nat
  exited : Bool

open UpdateSystem

/-- `update_actor_create`, with the files that it finds. -/
def UpdateSystem.start (staging : Files) : UpdateSystem where
  state := .idle
  pending := none
  drainStartMs := 0
  drainTimeoutMs := 300000
  posted := []
  staging := staging
  successes := 0
  lastSucceeded := false
  executions := 0
  exited := false

/-- What happens in a check; the backup may fail. -/
structure CheckOutcome where
  fetched : Fetched
  download : DownloadOutcome
  backedUp : Bool
  nowMs : UInt64

/-- A check that ends without an update. -/
def UpdateSystem.abandon (system : UpdateSystem) (staging : Files) : UpdateSystem :=
  { system with state := .idle, pending := none, staging := staging, lastSucceeded := false }

/-- `_start_check`; a pending update is replaced, not looked at. -/
def startCheck (key : ReleaseKey) (system : UpdateSystem) (outcome : CheckOutcome) : UpdateSystem :=
  match updateCheckFetch key outcome.fetched with
  | none => { system with state := .idle, lastSucceeded := false }
  | some info =>
    if info.available then
      let downloaded := updateDownload key info outcome.download system.staging
      if downloaded.1 && outcome.backedUp then
        { system with
          state := .draining
          pending := some info
          drainStartMs := outcome.nowMs
          posted := system.posted ++ [.drainTick]
          staging := downloaded.2
          successes := system.successes + 1
          lastSucceeded := true }
      else
        system.abandon downloaded.2
    else
      { system with state := .idle, lastSucceeded := false }

/-- `_drain_tick`, with the number of open streams. -/
def drainTick (system : UpdateSystem) (openCount : Nat) (nowMs : UInt64) : UpdateSystem :=
  if openCount = 0 ∨ system.drainTimeoutMs < nowMs - system.drainStartMs then
    { system with posted := system.posted ++ [.apply] }
  else
    { system with posted := system.posted ++ [.drainTick] }

/-- The updater is executed: it is there and the process can fork. -/
def executes (system : UpdateSystem) (forked : Bool) : Bool :=
  (system.staging updaterPath).isSome && forked

/-- `_apply_update`; the process ends when the updater takes over. -/
def applyUpdate (system : UpdateSystem) (forked : Bool) : UpdateSystem :=
  if executes system forked then
    { system with state := .applying, executions := system.executions + 1, exited := true }
  else
    { system with state := .failed }

/-- The messages to the update actor, with what happens as they are handled. -/
inductive UpdateStep where
  | check (outcome : CheckOutcome)
  | drainTick (openCount : Nat) (nowMs : UInt64)
  | apply (forked : Bool)

/-- `_dispatch`; a process that has ended handles nothing. -/
def updateStep (key : ReleaseKey) (system : UpdateSystem)
    (step : UpdateStep) : Option UpdateSystem :=
  if system.exited then
    none
  else
    match step with
    | .check outcome => some (startCheck key system outcome)
    | .drainTick openCount nowMs => some (drainTick system openCount nowMs)
    | .apply forked => some (applyUpdate system forked)

/-! ## The property and the condition -/

/-- The files are those of an archive that a signed manifest lists. -/
def Verified (key : ReleaseKey) (files : Files) : Prop :=
  ∃ signature data manifest entry archive,
    key.verify signature data = true ∧ key.parse data = some manifest ∧ entry ∈ manifest.files ∧
      key.sha256 archive = entry.sha256 ∧
      updateExtract reliable maxExtractBytes archive Files.empty = (true, files)

/-- An updater is executed only from verified files and after a successful check. -/
def ExecutesVerified (key : ReleaseKey) (system : UpdateSystem) (step : UpdateStep) : Prop :=
  ∀ forked, step = .apply forked → executes system forked = true →
    system.lastSucceeded = true ∧ Verified key system.staging

def CheckOutcome.archive (key : ReleaseKey) (outcome : CheckOutcome) : Option Bytes :=
  match updateCheckFetch key outcome.fetched with
  | some info =>
    if info.available then
      extractedArchive key info outcome.download
    else
      none
  | none => none

/--
An archive is extracted into an empty directory and removed, and an update is applied while
draining.
-/
def Orderly (key : ReleaseKey) (system : UpdateSystem) : UpdateStep → Prop
  | .check outcome =>
    ∀ archive ∈ outcome.archive key,
      AgreeOff archivePath system.staging Files.empty ∧
        (updateExtract reliable maxExtractBytes archive Files.empty).2 archivePath = none ∧
        outcome.download.removed = true
  | .drainTick _ _ => True
  | .apply _ => system.state = .draining

/-! ## Downloads that succeed -/

variable {fetched : Fetched} {archive : Bytes} {files : Files}

section
variable {key : ReleaseKey} {staging result : Files}

theorem updateCheckFetch_signed (found : updateCheckFetch key fetched = some info) :
    ∃ signature data, key.verify signature data = true ∧ key.parse data = some info.manifest := by
  simp only [updateCheckFetch] at found
  split at found
  · cases found
  · simp only [map_eq_some_iff, updateManifestFetch] at found
    rcases found with ⟨manifest, parsed, rfl⟩
    split at parsed
    · rename_i data signature _
      split at parsed
      · rename_i verified
        exact ⟨signature, data, verified, parsed⟩
      · cases parsed
    · cases parsed

theorem updateDownload_success (succeeds : updateDownload key info outcome staging =
      (true, result)) :
    ∃ archive, extractedArchive key info outcome = some archive ∧
      archiveListed key info archive = true ∧ ∃ files,
        updateExtract outcome.io maxExtractBytes archive
            (staging.write archivePath archive) = (true, files) ∧
          result = files.removeArchive outcome.removed := by
  simp only [updateDownload] at succeeds
  split at succeeds
  · rename_i reached
    split at succeeds
    · cases succeeds
    · rename_i archive received
      split at succeeds
      · rename_i checked
        rw [Prod.mk.injEq] at succeeds
        rcases succeeds with ⟨extracted, rfl⟩
        refine ⟨archive, ?_, (Bool.and_eq_true_iff.mp checked).2, _, Prod.ext extracted rfl, rfl⟩
        simp only [extractedArchive, if_pos reached, received]
        exact filter_eq_some_iff.mpr ⟨rfl, checked⟩
      · cases succeeds
  · cases succeeds

/-- In a directory without other files an archive leaves exactly its own. -/
theorem extracted_exactly (alone : AgreeOff archivePath staging Files.empty)
    (other : (updateExtract reliable maxExtractBytes archive Files.empty).2 archivePath = none)
    (extracted : updateExtract io maxExtractBytes archive
      (staging.write archivePath archive) = (true, files)) :
    updateExtract reliable maxExtractBytes archive Files.empty =
      (true, files.unlink archivePath) := by
  have steady := extractBlocks_reliable extracted
  have start : AgreeOff archivePath (staging.write archivePath archive)
      empty := by
    intro path different
    simp only [write, update_of_ne different]
    exact alone path different
  have same := @extractBlocks_agreeOff archivePath _ _ start reliable maxExtractBytes
    (archive.length % ustarBlockSize != 0) (archiveBlocks archive) .header 0 0
  rw [steady] at same
  apply Prod.ext
  · exact same.1.symm
  · funext path
    by_cases own : path = archivePath
    · subst own
      rw [other]
      simp [unlink]
    · simp only [unlink, update_of_ne own]
      exact (same.2 path own).symm

end

/-! ## Every run -/

/-- What every message keeps. -/
structure Sound (key : ReleaseKey) (system : UpdateSystem) : Prop where
  draining : system.state = .draining →
    0 < system.successes ∧ system.lastSucceeded = true ∧ Verified key system.staging
  executed : system.executions ≤ system.successes
  running : system.exited = false → system.executions = 0

section
variable {key : ReleaseKey} {system next : UpdateSystem}

theorem sound_start (key : ReleaseKey) (staging : Files) :
    Sound key (UpdateSystem.start staging) where
  draining := nofun
  executed := le_refl 0
  running := fun _ => rfl

/-- A check that ends in success leaves verified files. -/
theorem verified_of_updateDownload {info : UpdateInfo} {outcome : DownloadOutcome}
    {staging result : Files} (found : updateCheckFetch key fetched = some info)
    (orderly : ∀ archive ∈ extractedArchive key info outcome,
      AgreeOff archivePath staging Files.empty ∧ (updateExtract reliable maxExtractBytes archive
          Files.empty).2 archivePath = none ∧
        outcome.removed = true)
    (succeeds : updateDownload key info outcome staging = (true, result)) :
    Verified key result := by
  rcases updateDownload_success succeeds with ⟨archive, extracts, listed, files, extracted, rfl⟩
  rcases orderly archive extracts with ⟨alone, other, removed⟩
  rcases updateCheckFetch_signed found with ⟨signature, data, verified, parsed⟩
  simp only [archiveListed] at listed
  split at listed
  · rename_i entry member
    refine ⟨signature, data, info.manifest, entry, archive, verified, parsed,
      mem_of_find?_eq_some member, eq_of_beq listed, ?_⟩
    rw [removed]
    exact extracted_exactly alone other extracted
  · cases listed

/-- A check keeps what every message keeps. -/
theorem Sound.startCheck (sound : Sound key system) (orderly : Orderly key system (.check outcome)) :
    Sound key (startCheck key system outcome) := by
  simp only [Update.startCheck]
  split
  · exact { sound with draining := nofun }
  · rename_i info found
    split
    · rename_i available
      split
      · rename_i succeeds
        rw [Bool.and_eq_true] at succeeds
        constructor
        · intro _
          refine ⟨Nat.succ_pos _, rfl, ?_⟩
          apply verified_of_updateDownload found ?_ (Prod.ext succeeds.1 rfl)
          intro archive extracts
          apply orderly
          simp only [CheckOutcome.archive, found, if_pos available]
          exact extracts
        · exact Nat.le_succ_of_le sound.executed
        · exact sound.running
      · exact { sound with draining := nofun }
    · exact { sound with draining := nofun }

/-- An update is applied from verified files. -/
theorem Sound.applyUpdate (sound : Sound key system) (draining : system.state = .draining)
    (running : system.exited = false) : Sound key (applyUpdate system forked) := by
  have none_ := sound.running running
  have succeeded := (sound.draining draining).1
  simp only [Update.applyUpdate]
  split
  · constructor
    · nofun
    · show system.executions + 1 ≤ system.successes
      omega
    · nofun
  · exact { sound with draining := nofun }

theorem Sound.step (sound : Sound key system) {step : UpdateStep}
    (orderly : Orderly key system step) (stepped : updateStep key system step = some next) :
    Sound key next := by
  simp only [updateStep, ite_none_left_eq_some, Bool.not_eq_true] at stepped
  rcases stepped with ⟨running, stepped⟩
  cases step with
  | check outcome =>
    cases stepped
    exact sound.startCheck orderly
  | drainTick openCount nowMs =>
    cases stepped
    simp only [Update.drainTick]
    split
    · exact { sound with }
    · exact { sound with }
  | apply forked =>
    cases stepped
    exact sound.applyUpdate orderly running

end

/-- An archive with files of one byte. -/
def archiveOf (files : List (Bytes × UInt8)) : Bytes :=
  files.flatMap fun file =>
    file.1 ++ List.replicate (124 - file.1.length) 0 ++
      49 :: List.replicate 31 0 ++ 48 :: List.replicate 355 0 ++ file.2 :: List.replicate 511 0

def updaterName : Bytes :=
  [111, 102, 102, 115, 45, 117, 112, 100, 97, 116, 101, 114]

/-- The archive of a first release, with an updater and a tool. -/
def firstArchive : Bytes :=
  archiveOf [(updaterName, 1), ([116], 3)]

/-- The archive of a second release, with another tool and an updater. -/
def secondArchive : Bytes :=
  archiveOf [([117], 4), (updaterName, 2)]

/-- A manifest that lists one archive. -/
def manifestOf (archive : Bytes) : Manifest :=
  ⟨[], [⟨[97], archive, 0⟩]⟩

/-- Two signed manifests; the hash of a file is the file itself. -/
def twoReleases : ReleaseKey where
  verify := fun signature _ => signature == [7]
  parse := fun data =>
    if data = [1] then
      some (manifestOf firstArchive)
    else if data = [2] then
      some (manifestOf secondArchive)
    else
      none
  sha256 := id

/-- A check that finds a release and receives an archive. -/
def checkOf (manifest : UInt8) (archive : Bytes) (io : Nat → EntryOutcome) : UpdateStep :=
  .check
    { fetched := ⟨some ⟨[], true, [97]⟩, some ([manifest], [7])⟩
      download := ⟨true, some archive, true, io, true⟩
      backedUp := true
      nowMs := 0 }

/-- Neither release has both an updater of the second and the first tool. -/
theorem not_verified_of_mixed (updater : files updaterPath = some [2])
    (tool : files [[116]] = some [3]) : ¬ Verified twoReleases files := by
  have firstUpdater : (updateExtract reliable maxExtractBytes firstArchive
        empty).2 updaterPath = some [1] := by
    decide +kernel
  have secondTool : (updateExtract reliable maxExtractBytes secondArchive
        empty).2 [[116]] = none := by
    decide +kernel
  rintro ⟨signature, data, manifest, entry, archive, _, parsed, member, hash, extracted⟩
  have listed : archive = firstArchive ∨ archive = secondArchive := by
    simp only [twoReleases] at parsed
    split at parsed
    · cases parsed
      rw [mem_singleton.mp member] at hash
      exact .inl hash
    · split at parsed
      · cases parsed
        rw [mem_singleton.mp member] at hash
        exact .inr hash
      · cases parsed
  rcases listed with rfl | rfl
  · rw [extracted] at firstUpdater
    have both := updater.symm.trans firstUpdater
    exact absurd both (by decide)
  · rw [extracted] at secondTool
    have both := tool.symm.trans secondTool
    cases both

end Liboffs.Update
