import Liboffs.Update.Actor

/-!
# The choice of a release

A check asks the release server for the newest release, or for a list from
which the first one of the configured channel is taken, parses its tag as a
version, compares that with the running one, and fetches the signed manifest
for the tag from the same server.

A server is what it answers: the releases, as far as their fields are looked
at, and for each tag a manifest with its signature.
-/

namespace Liboffs.Update

open Library.ByteOrder

/-- `update_channel_e`. -/
inductive UpdateChannel where
  | stable
  | rc
  | dev
deriving DecidableEq

/-- `version_t`. -/
structure Version where
  major : Nat
  minor : Nat
  patch : Nat
  prerelease : Bytes

/-- `strtoul` in base ten: the value, with its sign applied modulo 2 ^ 64, and what follows. -/
def strtoul (text : Bytes) : Option (Nat × Bytes) :=
  let trimmed := text.dropWhile fun byte => byte = 32 ∨ 9 ≤ byte ∧ byte ≤ 13
  let signed : Bool := trimmed.head? = some 45 ∨ trimmed.head? = some 43
  let unsigned := if signed then trimmed.tail else trimmed
  let isDigit (byte : UInt8) : Bool := 48 ≤ byte ∧ byte ≤ 57
  let value := (unsigned.takeWhile isDigit).foldl (fun sum digit => 10 * sum + (digit.toNat - 48)) 0
  if unsigned.takeWhile isDigit = [] then none
  else if 2 ^ 64 ≤ value then some (2 ^ 64 - 1, unsigned.dropWhile isDigit)
  else if trimmed.head? = some 45 then
    some ((2 ^ 64 - value) % 2 ^ 64, unsigned.dropWhile isDigit)
  else some (value, unsigned.dropWhile isDigit)

/-- A part of a version, and what follows. -/
def versionPart (text : Bytes) : Option (Nat × Bytes) :=
  (strtoul text).filter fun parsed => parsed.1 ≤ 65535

/-- What follows a dot. -/
def afterDot : Bytes → Option Bytes
  | 46 :: rest => some rest
  | _ => none

/-- `version_parse`; a prerelease has at most 31 bytes. -/
def versionParse (tag : Bytes) : Option Version := do
  let (major, afterMajor) ← versionPart (if tag.head? = some 118 then tag.tail else tag)
  let (minor, afterMinor) ← versionPart (← afterDot afterMajor)
  let (patch, afterPatch) ← versionPart (← afterDot afterMinor)
  match afterPatch with
  | [] => some ⟨major, minor, patch, []⟩
  | 45 :: prerelease =>
    if prerelease = [] ∨ 31 < prerelease.length then none
    else some ⟨major, minor, patch, prerelease⟩
  | _ => none

/-- A release is newer than its prereleases, which are compared byte by byte. -/
def prereleaseCompare : Bytes → Bytes → Ordering
  | [], [] => .eq
  | [], _ :: _ => .gt
  | _ :: _, [] => .lt
  | first, second => compare first second

/-- `version_compare`. -/
def versionCompare (first second : Version) : Ordering :=
  (compare first.major second.major).then <| (compare first.minor second.minor).then <|
    (compare first.patch second.patch).then <|
      prereleaseCompare first.prerelease second.prerelease

/-- `_matches_channel`. -/
def matchesChannel (version : Version) : UpdateChannel → Bool
  | .stable => version.prerelease = []
  | .rc => [114, 99] <:+: version.prerelease
  | .dev => version.prerelease ≠ []

/-- A release in the answer: the fields that are strings, and the names and URLs of its assets. -/
structure ReleaseEntry where
  tagName : Option Bytes
  prerelease : Bool
  assets : List (Option Bytes × Option Bytes)

/-- The answer is a list of releases or one release. -/
inductive ReleaseAnswer where
  | list (entries : List ReleaseEntry)
  | single (entry : ReleaseEntry)

/-- What a release server answers. -/
structure ReleaseServer where
  releases : Option ReleaseAnswer
  manifests : Bytes → Option (Bytes × Bytes)

/-- Whether the search in a list stops at the release. -/
def ReleaseEntry.qualifies (channel : UpdateChannel) (entry : ReleaseEntry) : Bool :=
  match entry.tagName.bind versionParse with
  | none => false
  | some version =>
    !(entry.prerelease && channel == .stable) && matchesChannel version channel

/-- The release that is looked at, and its tag. -/
def selectedRelease (channel : UpdateChannel) (server : ReleaseServer) :
    Option (ReleaseEntry × Bytes) := do
  let entry ← match ← server.releases with
    | .list entries => entries.find? (ReleaseEntry.qualifies channel)
    | .single entry => some entry
  return (entry, ← entry.tagName)

/-- `linux-x64`. -/
def platformIdentifier : Bytes := [108, 105, 110, 117, 120, 45, 120, 54, 52]

/-- The URL of the first asset for the platform. -/
def ReleaseEntry.downloadUrl (entry : ReleaseEntry) : Bytes :=
  (((entry.assets.find? fun asset => asset.1.any (platformIdentifier <:+: ·)).bind
    Prod.snd).getD []).take 511

/-- `update_check_fetch`, from the answers of the server. -/
def checkServer (key : ReleaseKey) (channel : UpdateChannel) (current : Version)
    (server : ReleaseServer) : Option UpdateInfo := do
  let (entry, tag) ← selectedRelease channel server
  let version ← versionParse tag
  updateCheckFetch key
    { release := some
        { tagName := tag.take 63
          newer := versionCompare version current = .gt
          downloadUrl := entry.downloadUrl }
      manifest := server.manifests (tag.take 63) }

/-- An available update has the selected tag in its manifest, which is a newer version of the
channel. -/
def GoesForward (channel : UpdateChannel) (current : Version) (server : ReleaseServer)
    (info : UpdateInfo) : Prop :=
  ∃ entry version, selectedRelease channel server = some (entry, info.manifest.releaseTag) ∧
    versionParse info.manifest.releaseTag = some version ∧
    versionCompare version current = .gt ∧ matchesChannel version channel = true

/-- The manifest that the server sends for a tag, if it is signed and can be read. -/
def sentManifest (key : ReleaseKey) (server : ReleaseServer) (tag : Bytes) : Option Manifest :=
  updateManifestFetch key ⟨none, server.manifests (tag.take 63)⟩

/-- With a newer release comes its own manifest, and one that comes alone is of the channel. -/
def TiedTogether (key : ReleaseKey) (channel : UpdateChannel) (current : Version)
    (server : ReleaseServer) : Prop :=
  ∀ entry tag version manifest, selectedRelease channel server = some (entry, tag) →
    versionParse tag = some version → versionCompare version current = .gt →
    sentManifest key server tag = some manifest → manifest.releaseTag = tag ∧
      (server.releases = some (.single entry) → matchesChannel version channel = true)

variable {key : ReleaseKey} {channel : UpdateChannel} {current : Version} {server : ReleaseServer}
  {info : UpdateInfo} {entry : ReleaseEntry} {tag : Bytes} {version : Version}

/-- What is behind an available update. -/
theorem newer_of_checkServer (checked : checkServer key channel current server = some info)
    (available : info.available = true) :
    ∃ entry tag version, selectedRelease channel server = some (entry, tag) ∧
      versionParse tag = some version ∧ versionCompare version current = .gt ∧
      sentManifest key server tag = some info.manifest := by
  simp only [checkServer, Option.bind_eq_bind, Option.bind_eq_some_iff, Prod.exists] at checked
  rcases checked with ⟨entry, tag, selected, version, parsed, fetched⟩
  rcases Option.map_eq_some_iff.mp fetched with ⟨manifest, sent, rfl⟩
  exact ⟨entry, tag, version, selected, parsed, of_decide_eq_true available, sent⟩

theorem checkServer_of_newer (selected : selectedRelease channel server = some (entry, tag))
    (parsed : versionParse tag = some version) (newer : versionCompare version current = .gt)
    (sent : sentManifest key server tag = some manifest) :
    ∃ info, checkServer key channel current server = some info ∧ info.available = true ∧
      info.manifest = manifest := by
  refine ⟨⟨tag.take 63, entry.downloadUrl, manifest, true⟩, ?_, rfl, rfl⟩
  simp only [checkServer, selected, parsed, newer, Option.bind_eq_bind, Option.bind_some]
  exact Option.map_eq_some_iff.mpr ⟨manifest, sent, rfl⟩

/-- A release that is taken from a list is of the channel. -/
theorem matchesChannel_of_list (selected : selectedRelease channel server = some (entry, tag))
    (answered : server.releases = some (.list entries)) (parsed : versionParse tag = some version) :
    matchesChannel version channel = true := by
  simp only [selectedRelease, answered, Option.bind_eq_bind, Option.bind_some,
    Option.bind_eq_some_iff] at selected
  rcases selected with ⟨found, first, named, tagged, ⟨⟩⟩
  have qualifies := List.find?_some first
  simp only [ReleaseEntry.qualifies, tagged, Option.bind_some, parsed, Bool.and_eq_true]
    at qualifies
  exact qualifies.2

/-- **Updates go forward exactly if tags are tied to manifests and single releases to channels.** -/
theorem updates_go_forward_iff (key : ReleaseKey) (channel : UpdateChannel) (current : Version)
    (server : ReleaseServer) :
    (∀ info, checkServer key channel current server = some info → info.available = true →
        GoesForward channel current server info) ↔ TiedTogether key channel current server := by
  constructor
  · intro forward entry tag version manifest selected parsed newer sent
    rcases checkServer_of_newer selected parsed newer sent with ⟨info, checked, available, rfl⟩
    rcases forward info checked available with ⟨_, _, same, parsed', _, matching⟩
    cases selected.symm.trans same
    cases parsed.symm.trans parsed'
    exact ⟨rfl, fun _ => matching⟩
  · intro tied info checked available
    rcases newer_of_checkServer checked available with
      ⟨entry, tag, version, selected, parsed, newer, sent⟩
    rcases tied entry tag version _ selected parsed newer sent with ⟨rfl, alone⟩
    refine ⟨entry, version, selected, parsed, newer, ?_⟩
    cases answered : server.releases with
    | none => simp [selectedRelease, answered] at selected
    | some answer =>
      cases answer with
      | list entries => exact matchesChannel_of_list selected answered parsed
      | single only =>
        simp only [selectedRelease, answered, Option.bind_eq_bind, Option.bind_some,
          Option.bind_eq_some_iff] at selected
        rcases selected with ⟨_, _, ⟨⟩⟩
        exact alone answered

/-- A key under which a manifest is its own signature and its own tag. -/
def plainKey : ReleaseKey where
  verify signature data := signature == data
  parse data := some ⟨data, []⟩
  sha256 data := data

/-- A server that names release `2.0.0` and sends the manifest of `1.0.0`. -/
def staleServer : ReleaseServer where
  releases := some (.single ⟨some [50, 46, 48, 46, 48], false, []⟩)
  manifests _ := some ([49, 46, 48, 46, 48], [49, 46, 48, 46, 48])

/-- **The manifest of an old release is taken for a new one.** -/
theorem old_manifest_is_accepted :
    ¬ ∀ info, checkServer plainKey .stable ⟨1, 5, 0, []⟩ staleServer = some info →
      info.available = true → GoesForward .stable ⟨1, 5, 0, []⟩ staleServer info := by
  intro forward
  rcases forward _ rfl (by decide) with ⟨entry, version, selected, _⟩
  cases selected

end Liboffs.Update
