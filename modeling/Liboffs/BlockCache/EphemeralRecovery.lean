import Liboffs.BlockCache.IndexTrace
import Liboffs.BlockCache.LruCoherence

/-!
# Ephemeral claims after a crash

A block that is put for one consumer is claimed, and no peer may be served it.  The first claim
and the last release are written in records of their own beside the addition and the removal.  If
a crash comes between two such records, recovery finds the block without a claim.

The claims survive every other crash: a block that was only put with a claim and never cleared is
absent or claimed.
-/

namespace Liboffs.BlockCache

open Library Library.ByteOrder Library.BucketTrie Library.FileSlots List Option
  Function

/-- The hashes are known, and ephemeral blocks are claimed. -/
structure Claimed (known ephemeral : Hash → Prop) (contents : Contents) : Prop where
  names : NamesSlots (fun hash _ => known hash) contents
  claims : ∀ entry ∈ contents.toList, ephemeral entry.hash → entry.ephemeralCount ≠ 0

/-- The known hashes have room in a trie. -/
def KnownRoom (known : Hash → Prop) (capacity : Nat) : Prop :=
  NamedRoom (fun hash _ => known hash) capacity

/-- The hashes of a set except for one. -/
def Apart (ephemeral : Hash → Prop) (hash other : Hash) : Prop :=
  ephemeral other ∧ other ≠ hash

/-- A record that claims what it adds and unclaims nothing. -/
def Record.Claims (known ephemeral : Hash → Prop) : Record → Prop
  | .addition entry => known entry.hash ∧ (ephemeral entry.hash → entry.ephemeralCount ≠ 0)
  | .metadata entry => ephemeral entry.hash → entry.ephemeralCount ≠ 0
  | .removal _ | .increment _ | .ejection _ _ => True

variable {count : Nat} {entry : IndexEntry} {hash : Hash} {records : List Record} {claims : UInt16}

section
variable {known ephemeral : Hash → Prop} {contents : Contents}

theorem claimed_empty : Claimed known ephemeral (.leaf []) := by
  constructor
  · intro entry member
    cases member
  · intro entry member
    cases member

theorem Claimed.apart (claimed : Claimed known ephemeral contents) (hash : Hash) :
    Claimed known (Apart ephemeral hash) contents := by
  constructor
  · exact claimed.names
  · intro entry member exempt
    exact claimed.claims entry member exempt.1

theorem Claimed.modify (claimed : Claimed known (Apart ephemeral hash) contents)
    (sameHash : ∀ entry, (change entry).hash = entry.hash)
    (sameSlot : ∀ entry, (change entry).slot = entry.slot)
    (counts : ∀ entry ∈ contents.toList, entry.hash = hash →
      ephemeral hash → (change entry).ephemeralCount ≠ 0) :
    Claimed known ephemeral (modify hash change contents) := by
  constructor
  · exact namesSlots_modify claimed.names hash sameHash sameSlot
  · intro entry member needs
    rw [BlockCache.modify, Trie.toList_map] at member
    rcases mem_map.mp member with ⟨old, inside, rfl⟩
    split at needs
    · rename_i same
      rw [if_pos same]
      apply counts old inside same
      rw [sameHash, same] at needs
      exact needs
    · rename_i other
      rw [if_neg other]
      exact claimed.claims old inside ⟨needs, other⟩

section
variable (sound : Sound capacity contents)
include sound

/-- No entry of the hash is left. -/
theorem Claimed.eraseHash (claimed : Claimed known (Apart ephemeral hash) contents) :
    Claimed known ephemeral (eraseHash hash contents) := by
  constructor
  · exact namesSlots_eraseHash claimed.names hash
  · intro entry member needs
    have inside := (Trie.toList_erase_sublist hash contents 0).subset member
    refine claimed.claims entry inside ⟨needs, fun same => ?_⟩
    have found : lookup contents hash = some entry := (lookup_eq_some_iff sound).mpr ⟨inside, same⟩
    have apart := ((Trie.perm_cons_erase found).map IndexEntry.hash).nodup_iff.mp sound.distinct
    exact (nodup_cons.mp apart).1 (mem_map_of_mem member)

theorem Claimed.insertEntry (claimed : Claimed known ephemeral contents) (named : known entry.hash)
    (counts : ephemeral entry.hash → entry.ephemeralCount ≠ 0)
    {after : Contents} {visits : List (Visit IndexEntry)}
    (inserted : insertEntry capacity entry contents = some (after, visits)) :
    Claimed known ephemeral after := by
  cases found : lookup contents entry.hash with
  | some old =>
    rw [insertEntry_of_known sound found] at inserted
    cases inserted
    exact claimed
  | none =>
    have spec := insertEntry_inserted sound found inserted
    constructor
    · intro other member
      rcases spec.mem_iff.mp member with rfl | member
      · exact named
      · exact claimed.names other member
    · intro other member needs
      rcases spec.mem_iff.mp member with rfl | member
      · exact counts needs
      · exact claimed.claims other member needs

end

section
variable (room : KnownRoom known capacity)
include room

theorem replayRecord_claims (good : record.Claims known ephemeral) (sound : Sound capacity contents)
    (claimed : Claimed known ephemeral contents) :
    ∃ next, replayRecord capacity contents record = some next ∧
      Sound capacity next ∧ Claimed known ephemeral next := by
  cases record with
  | addition entry =>
    rcases insertEntry_names room sound claimed.names good.1 with ⟨after, visits, inserted, _⟩
    refine ⟨after, ?_, sound_insertEntry sound inserted,
      claimed.insertEntry sound good.1 good.2 inserted⟩
    rw [replayRecord, inserted]
    rfl
  | removal hash => exact ⟨_, rfl, sound_eraseHash sound, (claimed.apart hash).eraseHash sound⟩
  | increment entry =>
    refine ⟨_, rfl, sound_modify sound hash_indexEntryIncrement, ?_⟩
    apply (claimed.apart entry.hash).modify hash_indexEntryIncrement (fun _ => rfl)
    intro old member same needs
    exact claimed.claims old member (same ▸ needs)
  | ejection hash date =>
    refine ⟨_, rfl, sound_modify sound (hash_indexEntrySetEjectionDate · date), ?_⟩
    apply (claimed.apart hash).modify (hash_indexEntrySetEjectionDate · date) (fun _ => rfl)
    intro old member same needs
    exact claimed.claims old member (same ▸ needs)
  | metadata entry =>
    refine ⟨_, rfl, sound_modify sound (hash_indexEntryCopyMetadata entry), ?_⟩
    apply (claimed.apart entry.hash).modify (hash_indexEntryCopyMetadata entry) (fun _ => rfl)
    intro old member same needs
    exact good needs

theorem keeping_of_claims (all : ∀ record ∈ records, record.Claims known ephemeral) :
    Keeping capacity (Claimed known ephemeral) records := by
  apply keeping_of_forall
  intro record member
  apply keeping_singleton
  intro contents sound claimed
  exact replayRecord_claims room (all record member) sound claimed

/-- Two records, of which the first may unclaim what the second repairs. -/
theorem keeping_pair (opens : first.Claims known (Apart ephemeral hash))
    (closes : ∀ contents, Sound capacity contents → Claimed known (Apart ephemeral hash) contents →
        ∃ next, replayRecord capacity contents second = some next ∧
          Sound capacity next ∧ Claimed known ephemeral next) :
    Keeping capacity (Claimed known ephemeral) [first, second] := by
  intro contents sound claimed
  rcases replayRecord_claims room opens sound (claimed.apart hash) with
    ⟨middle, replayed, soundMiddle, exempt⟩
  rcases closes middle soundMiddle exempt with ⟨next, replayedNext, soundNext, repaired⟩
  refine ⟨next, ?_, soundNext, repaired⟩
  change (replayRecord capacity contents first).bind (fun state =>
    (replayRecord capacity state second).bind some) = _
  rw [replayed, bind_some, replayedNext]
  rfl

/-- The addition of a block and its first claim. -/
theorem keeping_addition_metadata (named : known added.hash) (same : counted.hash = added.hash)
    (positive : counted.ephemeralCount ≠ 0) :
    Keeping capacity (Claimed known ephemeral) [.addition added, .metadata counted] := by
  have opens : (Record.addition added).Claims known (Apart ephemeral added.hash) :=
    ⟨named, fun exempt => absurd rfl exempt.2⟩
  apply keeping_pair room opens
  intro contents sound exempt
  refine ⟨_, rfl, sound_modify sound (hash_indexEntryCopyMetadata counted), ?_⟩
  rw [← same] at exempt
  exact exempt.modify (hash_indexEntryCopyMetadata counted) (fun _ => rfl) fun _ _ _ _ => positive

/-- Of two records for one claim at the end of a message, only the first may lose the claim. -/
theorem keeping_take_pair (all : ∀ record ∈ early, record.Claims known ephemeral)
    (pair : Keeping capacity (Claimed known ephemeral) [first, second])
    (whole : count + 1 ≠ (early ++ [first, second]).length) :
    Keeping capacity (Claimed known ephemeral) ((early ++ [first, second]).take count) := by
  rw [length_append, length_cons, length_singleton] at whole
  by_cases short : count ≤ early.length
  · rw [take_append_of_le_length short]
    apply keeping_of_claims room
    intro record member
    exact all record (mem_of_mem_take member)
  · rw [take_of_length_le (by
      rw [length_append, length_cons, length_singleton]
      omega)]
    exact (keeping_of_claims room all).append pair

end

end

section
variable {known ephemeral : Hash → Prop} {before after : Index}

/-- Objects have changed, but neither their hashes nor their claims. -/
theorem Claimed.of_counts (claimed : Claimed known ephemeral before.contents)
    (root : after.root = before.root)
    (hashes : ∀ ref, (after.entries ref).hash = (before.entries ref).hash)
    (counts : ∀ ref, (after.entries ref).ephemeralCount = (before.entries ref).ephemeralCount) :
    Claimed known ephemeral after.contents := by
  have inside {entry : IndexEntry} (member : entry ∈ after.contents.toList) :
      ∃ old ∈ before.contents.toList, old.hash = entry.hash ∧
        old.ephemeralCount = entry.ephemeralCount := by
    rw [Index.contents, Trie.toList_map] at member
    rcases mem_map.mp member with ⟨ref, stored, rfl⟩
    rw [root] at stored
    refine ⟨before.entries ref, ?_, (hashes ref).symm, (counts ref).symm⟩
    rw [Index.contents, Trie.toList_map]
    exact mem_map_of_mem stored
  constructor
  · intro entry member
    rcases inside member with ⟨old, member, hash, _⟩
    rw [← hash]
    exact claimed.names old member
  · intro entry member needs
    rcases inside member with ⟨old, member, hash, count⟩
    rw [← count]
    rw [← hash] at needs
    exact claimed.claims old member needs

/-- What a message does to the log and the claims. -/
structure LogsClaims (env : Environment) (known ephemeral : Hash → Prop) (divided : Bool)
    (before after : Index) : Prop where
  wellFormed : after.WellFormed
  claimed : Claimed known ephemeral after.contents
  logged : ∃ records, Extends env before after records ∧
    ∀ count, (divided = true → count + 1 ≠ records.length) →
      Keeping before.bucketSize.toNat (Claimed known ephemeral) (records.take count)

variable {env : Environment}

theorem logsClaims_of_claims (room : KnownRoom known before.bucketSize.toNat)
    (wellFormed : after.WellFormed) (claimed : Claimed known ephemeral after.contents)
    (extends_ : Extends env before after records)
    (all : ∀ record ∈ records, record.Claims known ephemeral) :
    LogsClaims env known ephemeral divided before after :=
  ⟨wellFormed, claimed, records, extends_, fun _ _ =>
    keeping_of_claims room fun record member => all record (mem_of_mem_take member)⟩

/-- An index with room for the known hashes, whose claims are kept. -/
structure KeepsClaims (known ephemeral : Hash → Prop) (index : Index) : Prop where
  room : KnownRoom known index.bucketSize.toNat
  wellFormed : index.WellFormed
  claimed : Claimed known ephemeral index.contents

theorem logsClaims_refl (keeps : KeepsClaims known ephemeral before) :
    LogsClaims env known ephemeral divided before before :=
  logsClaims_of_claims keeps.room keeps.wellFormed keeps.claimed (Extends.refl before) (by simp)

/-- The entry of a hash has been given claims and pins, and they are logged. -/
structure SetsMetadata (env : Environment) (before after : Index) (entry : IndexEntry) : Prop where
  wellFormed : after.WellFormed
  extends_ : Extends env before after [.metadata entry]
  contents : after.contents = modify entry.hash (indexEntryCopyMetadata entry) before.contents

theorem setsMetadata_setEntryMetadata (wellFormed : before.WellFormed)
    (found : indexFind before hash = some ref) (claims : UInt16) (pins : UInt32) :
    SetsMetadata env before (setEntryMetadata env before ref claims pins)
      (indexEntrySetMetadata (before.entries ref) claims pins) := by
  have current := current_of_indexFind wellFormed found
  have performs := performs_setMetadata env wellFormed current claims pins
  have ran := performs.ran
  refine { performs with contents := ?_ }
  exact (Option.some.inj ran).symm

theorem SetsMetadata.claimed (sets : SetsMetadata env before after entry)
    (claimed : Claimed known (Apart ephemeral entry.hash) before.contents)
    (counts : ephemeral entry.hash → entry.ephemeralCount ≠ 0) :
    Claimed known ephemeral after.contents := by
  rw [sets.contents]
  exact claimed.modify (hash_indexEntryCopyMetadata entry) (fun _ => rfl)
    fun _ _ _ needs => counts needs

/-- Claims that are set without unclaiming an ephemeral block. -/
theorem SetsMetadata.logsClaims (sets : SetsMetadata env before after entry)
    (keeps : KeepsClaims known ephemeral before)
    (counts : ephemeral entry.hash → entry.ephemeralCount ≠ 0) :
    LogsClaims env known ephemeral divided before after := by
  apply logsClaims_of_claims keeps.room sets.wellFormed
    (sets.claimed (keeps.claimed.apart _) counts) sets.extends_
  intro record member
  rcases mem_singleton.mp member with rfl
  exact counts

end

theorem succ_ne_zero (below : claims ≠ 0xffff) : claims + 1 ≠ 0 := by
  intro zero
  apply below
  calc
    claims = claims + 1 - 1 := by simp
    _ = 0xffff := by rw [zero]; rfl

variable {index : Index}

section
variable {world : World} {cache after : Cache} {known ephemeral : Hash → Prop}

/-- The claim of a put on an entry of the index. -/
theorem logsClaims_acquireClaim (cache : Cache) (keeps : KeepsClaims known ephemeral cache.index)
    (found : indexFind cache.index hash = some ref) (acquire : Bool) (divided : Bool) :
    LogsClaims world.env known ephemeral divided cache.index
      (acquireClaim world cache ref acquire).index := by
  unfold acquireClaim
  split
  · rename_i claims
    rw [Bool.and_eq_true, decide_eq_true_eq] at claims
    apply (setsMetadata_setEntryMetadata keeps.wellFormed found _ _).logsClaims keeps
    intro _
    exact succ_ne_zero (UInt16.ne_of_lt claims.2)
  · exact logsClaims_refl keeps

variable {put : CachePut} {now : UInt64}

theorem logsClaims_cachePutKnown (keeps : KeepsClaims known ephemeral cache.index)
    (found : indexFind cache.index put.block.hash = some ref) (divided : Bool) :
    LogsClaims world.env known ephemeral divided cache.index
      (cachePutKnown world cache put ref).1.index := by
  have touches := touches_raiseEntryFib cache.index ref put.incomingFib
  have silent : Extends world.env cache.index
      (raiseEntryFib cache.index ref put.incomingFib) [] := by
    unfold raiseEntryFib
    split
    · exact extends_setEntry world.env cache.index ref _
    · exact Extends.refl _
  have counts (other : EntryRef) : ((raiseEntryFib cache.index ref put.incomingFib).entries
        other).ephemeralCount = (cache.index.entries other).ephemeralCount := by
    unfold raiseEntryFib
    split
    · simp only [Index.setEntry, update_apply]
      split
      · rename_i same
        rw [same]
      · rfl
    · rfl
  have hashes (other : EntryRef) := congrFun touches.hashOf other
  have raised : KeepsClaims known ephemeral (raiseEntryFib cache.index ref put.incomingFib) :=
    ⟨silent.bucketSize ▸ keeps.room, touches.wellFormed keeps.wellFormed,
      keeps.claimed.of_counts touches.root hashes counts⟩
  suffices logs : LogsClaims world.env known ephemeral _
      (raiseEntryFib cache.index ref put.incomingFib) _ by
    rcases logs.logged with ⟨records, extends_, keeping⟩
    exact ⟨logs.wellFormed, logs.claimed, records, silent.trans extends_,
      silent.bucketSize ▸ keeping⟩
  have still : indexFind (raiseEntryFib cache.index ref put.incomingFib)
      put.block.hash = some ref := by
    rw [touches.indexFind]
    exact found
  exact logsClaims_acquireClaim
    { cache with index := raiseEntryFib cache.index ref put.incomingFib }
    raised still put.acquireEphemeral divided

/-- The ejection of another block is logged, and touches no claims. -/
theorem counts_cacheRemember (remembered : cacheRemember world now cache block ref = some after) :
    (∀ other, (after.index.entries other).ephemeralCount =
        (cache.index.entries other).ephemeralCount) ∧
      ∃ records, Extends world.env cache.index after.index records ∧
        ∀ record ∈ records, record.Claims known ephemeral := by
  rcases map_eq_some_iff.mp remembered with ⟨put, _, rfl⟩
  unfold cacheEject
  split
  · rename_i ejected _
    constructor
    · intro other
      have logged := sameEntries_logRecord world.env cache.index
        (.ejection (cache.index.hashOf ejected) now)
      simp only [indexSetEntryEjection, Index.setEntry, update_apply, logged.entries]
      split
      · rename_i same
        rw [same]
        rfl
      · rfl
    · refine ⟨_, (extends_logRecord world.env cache.index
        (.ejection (cache.index.hashOf ejected) now)).trans
          (extends_setEntry world.env _ ejected _), ?_⟩
      intro record member
      rcases mem_singleton.mp member with rfl
      trivial
  · exact ⟨fun _ => rfl, [], Extends.refl _, by simp⟩

/-- The addition of an entry without claims to claimed entries. -/
theorem logged_indexAdd (wellFormed : index.WellFormed)
    (claimed : Claimed known ephemeral index.contents) (created : ref < index.nextRef)
    (absent : indexFind index (index.hashOf ref) = none) (named : known (index.hashOf ref))
    (added : indexAdd world.env index ref = some new) :
    new.entries = index.entries ∧
      Claimed known (Apart ephemeral (index.hashOf ref)) new.contents ∧
      ∃ again, Extends world.env index new (again ++ [.addition (index.entries ref)]) ∧
        ∀ record ∈ again, record.Claims known ephemeral := by
  rcases indexAdd_objects world.env wellFormed absent added with ⟨_, _, _, _, same, _⟩
  rcases indexAdd_of_absent world.env wellFormed created absent added with
    ⟨_, visits, inserted, extends_⟩
  have unknown : lookup index.contents (index.entries ref).hash = none := by
    rw [lookup_contents]
    change (indexFind index (index.hashOf ref)).map index.entries = none
    rw [absent]
    rfl
  refine ⟨same.entries, ?_, ?_⟩
  · exact (claimed.apart _).insertEntry wellFormed.sound named
      (fun exempt => absurd rfl exempt.2) inserted
  · rcases storedRecords_of_absent wellFormed.sound unknown inserted with ⟨again, stored, old⟩
    refine ⟨again.map .addition, stored ▸ extends_, ?_⟩
    intro record member
    rcases mem_map.mp member with ⟨entry, inside, rfl⟩
    exact ⟨claimed.names entry (old entry inside), claimed.claims entry (old entry inside)⟩

/-- The first claim of a block whose addition is the last record. -/
theorem logsClaims_firstClaim (room : KnownRoom known before.bucketSize.toNat)
    (wellFormed : index.WellFormed) (named : known hash)
    (unclaimed : Claimed known (Apart ephemeral hash) index.contents)
    (found : indexFind index hash = some ref)
    (logged : Extends world.env before index (early ++ [.addition (index.entries ref)]))
    (all : ∀ record ∈ early, record.Claims known ephemeral) (pins : UInt32) :
    LogsClaims world.env known ephemeral true before
      (setEntryMetadata world.env index ref 1 pins) := by
  have sets : SetsMetadata world.env index (setEntryMetadata world.env index ref 1 pins)
      (indexEntrySetMetadata (index.entries ref) 1 pins) :=
    setsMetadata_setEntryMetadata wellFormed found 1 pins
  have same : (index.entries ref).hash = hash := ((indexFind_eq_some_iff wellFormed).mp found).2
  have one : (1 : UInt16) ≠ 0 := by decide
  rw [← same] at named unclaimed
  refine ⟨sets.wellFormed, sets.claimed unclaimed fun _ => one, _, logged.trans sets.extends_, ?_⟩
  rw [append_assoc]
  intro count whole
  have pair : Keeping before.bucketSize.toNat (Claimed known ephemeral)
      [.addition (index.entries ref),
        .metadata (indexEntrySetMetadata (index.entries ref) 1 pins)] := by
    apply keeping_addition_metadata room named
    · rfl
    · exact one
  exact keeping_take_pair room all pair (whole rfl)

/-- The put of a new block, which writes its claim in a record of its own. -/
theorem logsClaims_cachePutWritten (cache : Cache) (keeps : KeepsClaims known ephemeral cache.index)
    (named : known put.block.hash) (claims : ephemeral put.block.hash → put.acquireEphemeral = true)
    (absent : indexFind cache.index put.block.hash = none)
    (done : cachePutWritten world cache put now written = some (after, result)) :
    LogsClaims world.env known ephemeral put.acquireEphemeral cache.index after.index := by
  obtain ⟨room, wellFormed, claimed⟩ := keeps
  rcases bind_eq_some_iff.mp done with ⟨kept, remembered, done⟩
  rcases map_eq_some_iff.mp done with ⟨index, added, equal⟩
  cases equal
  have touches := (remembers_cacheRemember world remembered).rest.index
  have adds := adds_indexAdd wellFormed absent touches added
  let entry := newEntry put written.sectionId written.sectionIndex
  have fresh := wellFormed_allocEntry wellFormed entry
  have hash : kept.index.hashOf cache.index.nextRef = put.block.hash :=
    hashOf_new_of_touches touches
  rcases counts_cacheRemember remembered with ⟨counts, ejections, ejected, harmless⟩
  have start : Extends world.env cache.index kept.index ejections :=
    (extends_allocEntry world.env cache.index entry).trans ejected
  have ready : Claimed known ephemeral kept.index.contents := by
    have allocated := claimed
    rw [← contents_allocEntry wellFormed entry] at allocated
    exact allocated.of_counts touches.root (fun other => congrFun touches.hashOf other) counts
  rcases logged_indexAdd (touches.wellFormed fresh) ready
    (by rw [touches.nextRef]; exact Nat.lt_succ_self _)
    (indexFind_new_of_touches touches wellFormed absent) (hash.symm ▸ named) added with
    ⟨same, unclaimed, again, logged, known_⟩
  rw [hash] at unclaimed
  have all : ∀ record ∈ ejections ++ again, record.Claims known ephemeral := by
    intro record member
    rcases mem_append.mp member with early | late
    · exact harmless record early
    · exact known_ record late
  have grown := start.trans logged
  rw [← append_assoc] at grown
  cases acquire : put.acquireEphemeral with
  | false =>
    have plain : ¬ ephemeral put.block.hash := by
      intro needs
      rw [claims needs] at acquire
      cases acquire
    apply logsClaims_of_claims room adds.wellFormed ⟨unclaimed.names, fun entry member needs =>
      unclaimed.claims entry member ⟨needs, fun same => plain (same ▸ needs)⟩⟩ grown
    intro record member
    rcases mem_append.mp member with early | last
    · exact all record early
    · rcases mem_singleton.mp last with rfl
      change known (kept.index.hashOf _) ∧ (ephemeral (kept.index.hashOf _) → _)
      rw [hash]
      exact ⟨named, fun needs => absurd needs plain⟩
  | true =>
    have zero : (index.entries cache.index.nextRef).ephemeralCount = 0 := by
      rw [same, counts, entries_allocEntry]
      rfl
    have found : indexFind index put.block.hash = some cache.index.nextRef :=
      (adds.find _).trans (if_pos rfl)
    have claim : acquireClaim world
        { kept with
          index
          entryCount := kept.entryCount + 1
          currentBytes := kept.currentBytes + kept.typeBytes
          putGroups := putGroupRecord kept.putGroups put.putGroup put.block.hash }
        cache.index.nextRef true =
      { kept with
        index := setEntryMetadata world.env index cache.index.nextRef 1
          (index.entries cache.index.nextRef).pinCount
        entryCount := kept.entryCount + 1
        currentBytes := kept.currentBytes + kept.typeBytes
        putGroups := putGroupRecord kept.putGroups put.putGroup put.block.hash } := by
      simp only [acquireClaim, zero]
      rfl
    rw [claim]
    rw [← same] at grown
    exact logsClaims_firstClaim room adds.wellFormed named unclaimed found grown all _

/-- Whether a message writes the first or the last claim of a block. -/
def divides (cache : Cache) : CacheStep → Bool
  | .cache (.put put _) => put.acquireEphemeral && (indexFind cache.index put.block.hash).isNone
  | .cache (.ephemeral op hash) => releasesLast cache op hash
  | _ => false

section
variable (keeps : KeepsClaims known ephemeral cache.index)
include keeps

theorem logsClaims_cachePut (named : known put.block.hash)
    (claims : ephemeral put.block.hash → put.acquireEphemeral = true)
    (done : cachePut world cache put now = some (after, result)) :
    LogsClaims world.env known ephemeral
      (divides cache (.cache (.put put now))) cache.index after.index := by
  unfold cachePut at done
  split at done
  · rename_i ref found
    cases done
    exact logsClaims_cachePutKnown keeps found _
  · rename_i absent
    have divided : divides cache (.cache (.put put now)) = put.acquireEphemeral := by
      simp [divides, absent]
    rw [divided]
    split at done
    · cases done
      exact logsClaims_refl keeps
    · rcases bind_eq_some_iff.mp done with ⟨⟨sections, disk, written⟩, _, done⟩
      simp only at done
      split at done
      · exact logsClaims_cachePutWritten
          (cache.withStore (sections, disk)) keeps named claims absent done
      · cases done
        exact logsClaims_refl keeps

/-- The last release of a block, which is removed in a record of its own. -/
theorem logsClaims_lastRelease (found : indexFind cache.index hash = some ref) :
    LogsClaims world.env known ephemeral true cache.index
      (indexRemove world.env (setClaims world cache ref 0).index hash) := by
  have sets : SetsMetadata world.env cache.index (setClaims world cache ref 0).index
      (indexEntrySetMetadata (cache.index.entries ref) 0 (cache.index.entries ref).pinCount) :=
    setsMetadata_setEntryMetadata keeps.wellFormed found 0 _
  have same : (cache.index.entries ref).hash = hash :=
    ((indexFind_eq_some_iff keeps.wellFormed).mp found).2
  have still : indexFind (setClaims world cache ref 0).index hash = some ref :=
    ((touches_setEntryMetadata world.env cache.index ref).indexFind hash).trans found
  have removed := extends_indexRemove world.env (setClaims world cache ref 0).index hash
  simp only [changeRecords, lookup_contents, still, map_some] at removed
  refine ⟨wellFormed_indexRemove world.env sets.wellFormed hash, ?_, _,
    sets.extends_.trans removed, ?_⟩
  · rw [contents_indexRemove]
    apply Claimed.eraseHash sets.wellFormed.sound
    apply sets.claimed (keeps.claimed.apart hash |>.apart _)
    intro exempt
    exact absurd same exempt.2
  · intro count whole
    have pair : Keeping cache.index.bucketSize.toNat (Claimed known ephemeral)
        [.metadata (indexEntrySetMetadata (cache.index.entries ref) 0
          (cache.index.entries ref).pinCount), .removal hash] := by
      rw [← same]
      apply keeping_pair keeps.room
      · exact fun exempt => absurd rfl exempt.2
      · intro contents sound exempt
        exact ⟨_, rfl, sound_eraseHash sound, exempt.eraseHash sound⟩
    have none_ : ∀ record ∈ ([] : List Record), record.Claims known ephemeral := by
      simp
    exact keeping_take_pair keeps.room none_ pair (whole rfl)

theorem logsClaims_cacheEphemeral (indexed : LruIndexed cache)
    (clears : ephemeral hash → op ≠ .clear)
    (done : cacheEphemeral world cache op hash = some (after, result)) :
    LogsClaims world.env known ephemeral (divides cache (.cache (.ephemeral op hash))) cache.index
      after.index := by
  unfold cacheEphemeral at done
  split at done
  · rename_i ref found
    have indexFound := found
    rw [indexed.cacheFindEntry] at indexFound
    have same : (cache.index.entries ref).hash = hash :=
      ((indexFind_eq_some_iff keeps.wellFormed).mp indexFound).2
    have sets (claims : UInt16) : SetsMetadata world.env cache.index
        (setClaims world cache ref claims).index
        (indexEntrySetMetadata (cache.index.entries ref) claims
          (cache.index.entries ref).pinCount) :=
      setsMetadata_setEntryMetadata keeps.wellFormed indexFound claims _
    unfold cacheEphemeralEntry at done
    simp only at done
    split at done
    · split at done
      · cases done
        exact logsClaims_refl keeps
      · rename_i below
        cases done
        apply (sets _).logsClaims keeps
        intro _
        exact succ_ne_zero below
    · split at done
      · split at done
        · rename_i last
          rcases map_eq_some_iff.mp done with ⟨deleted, deletion, equal⟩
          cases equal
          cases deletion
          have divided : divides cache (.cache (.ephemeral .release hash)) = true := by
            simp [divides, releasesLast, found, last]
          rw [divided, last]
          exact logsClaims_lastRelease keeps indexFound
        · rename_i more
          cases done
          apply (sets _).logsClaims keeps
          intro _ zero
          have value := congrArg (· + 1) zero
          exact more (by simpa [indexEntrySetMetadata] using value)
      · cases done
        exact logsClaims_refl keeps
    · cases done
      split
      · apply (sets _).logsClaims keeps
        intro needs
        exact absurd rfl (clears (same ▸ needs))
      · exact logsClaims_refl keeps
  · cases done
    exact logsClaims_refl keeps

end

end

/-- The messages of a run of puts and claims, with saves of the index. -/
inductive Claiming : CacheStep → Prop where
  | put (payload : CachePut) (now : UInt64) : Claiming (.cache (.put payload now))
  | ephemeral (op : EphemeralOp) (hash : Hash) : Claiming (.cache (.ephemeral op hash))
  | indexSave : Claiming (.cache (.indexSave .complete))

/-- A block that the messages put. -/
def PutIn (steps : List CacheStep) (hash : Hash) : Prop :=
  ∃ put now, .cache (.put put now) ∈ steps ∧ put.block.hash = hash

/-- A block that is only put with a claim, and whose claims stay. -/
structure EphemeralOnly (steps : List CacheStep) (hash : Hash) : Prop where
  puts : ∀ put now, .cache (.put put now) ∈ steps →
    put.block.hash = hash → put.acquireEphemeral = true
  clears : .cache (.ephemeral .clear hash) ∉ steps

/-- The index and its files keep the claims. -/
structure ClaimsKept (env : Environment) (known ephemeral : Hash → Prop) (cache : Cache) :
    Prop where
  keeps : KeepsClaims known ephemeral cache.index
  indexed : LruIndexed cache
  trace : FilesTrace env (Claimed known ephemeral) cache.index

variable {start : Cache}

section
variable {world : World} {steps : List CacheStep} {cache after : Cache}

section
variable (kept : ClaimsKept world.env (PutIn steps) (EphemeralOnly steps) cache)
include kept

/-- What a message of the run writes. -/
theorem ClaimsKept.logs (claiming : Claiming step) (member : step ∈ steps)
    (stepped : cacheStep world cache step = some after) :
    LogsClaims world.env (PutIn steps) (EphemeralOnly steps)
        (divides cache step) cache.index after.index ∨
      after.index = indexDebounce world.env .complete cache.index := by
  cases claiming with
  | put payload now =>
    rcases map_eq_some_iff.mp stepped with ⟨_, done, rfl⟩
    rcases map_eq_some_iff.mp done with ⟨⟨next, result⟩, put, rfl⟩
    left
    exact logsClaims_cachePut kept.keeps ⟨payload, now, member, rfl⟩
      (fun only => only.puts payload now member rfl) put
  | ephemeral op hash =>
    rcases map_eq_some_iff.mp stepped with ⟨_, done, rfl⟩
    rcases map_eq_some_iff.mp done with ⟨⟨next, result⟩, counted, rfl⟩
    left
    apply logsClaims_cacheEphemeral kept.keeps kept.indexed _ counted
    rintro only rfl
    exact only.clears member
  | indexSave =>
    cases stepped
    exact .inr rfl

theorem ClaimsKept.step {step : CacheStep} (claiming : Claiming step) (member : step ∈ steps)
    (stepped : cacheStep world cache step = some after) :
    ClaimsKept world.env (PutIn steps) (EphemeralOnly steps) after := by
  have still : revives world cache step = false := by cases claiming <;> rfl
  have indexed := (lruIndexed_cacheStep_iff kept.keeps.wellFormed kept.indexed stepped).mpr still
  rcases kept.logs claiming member stepped with logs | rolled
  · rcases logs.logged with ⟨records, extends_, keeping⟩
    have all := keeping records.length fun _ => Nat.succ_ne_self records.length
    rw [take_length] at all
    exact ⟨⟨extends_.bucketSize ▸ kept.keeps.room, logs.wellFormed, logs.claimed⟩, indexed,
      kept.trace.step extends_ all⟩
  · have touches := touches_indexDebounce world.env cache.index .complete
    obtain ⟨⟨room, wellFormed, claimed⟩, _, trace⟩ := kept
    refine ⟨⟨?_, ?_, ?_⟩, indexed, ?_⟩
    · rw [rolled, touches.bucketSize]
      exact room
    · rw [rolled]
      exact touches.wellFormed wellFormed
    · rw [rolled, (sameEntries_indexDebounce cache.index world.env).contents]
      exact claimed
    · rw [rolled]
      exact trace.rollover wellFormed claimed

end

theorem claimsKept_cacheRun (kept : ClaimsKept world.env (PutIn steps) (EphemeralOnly steps) start)
    (claiming : ∀ step ∈ prior, Claiming step) (inside : ∀ step ∈ prior, step ∈ steps)
    (ran : cacheRun world start prior = some final) :
    ClaimsKept world.env (PutIn steps) (EphemeralOnly steps) final := by
  induction prior generalizing start with
  | nil =>
    cases ran
    exact kept
  | cons step rest ih =>
    rcases bind_eq_some_iff.mp ran with ⟨next, stepped, ran⟩
    apply ih
    · exact kept.step (claiming step mem_cons_self) (inside step mem_cons_self) stepped
    · intro other member
      exact claiming other (mem_cons_of_mem _ member)
    · intro other member
      exact inside other (mem_cons_of_mem _ member)
    · exact ran

/-- A cache in new directories holds no blocks. -/
theorem claimsKept_blockCacheCreate
    (created : blockCacheCreate world config (CacheFiles.fresh config.type) write = some start)
    (room : KnownRoom known config.indexBucketSize.toNat) :
    ClaimsKept world.env known ephemeral start := by
  have trace : FilesTrace world.env (Claimed known ephemeral)
      (indexNewEmpty IndexFiles.empty config.indexBucketSize config.maxSnapshots config.maxWals) :=
    { idle := rfl
      next := Nat.lt_succ_self 1
      ids := fun _ member => absurd member not_mem_nil
      snapshots := fun _ member => absurd member not_mem_nil
      logs := fun _ => ⟨[], rfl, keeping_nil⟩
      unused := fun _ _ => rfl }
  have lru := lru_blockCacheCreate created
  rcases bind_eq_some_iff.mp created with ⟨store, made, rest⟩
  have index : start.index = indexNewEmpty IndexFiles.empty config.indexBucketSize
        config.maxSnapshots config.maxWals := by
    cases rest
    split
    · rfl
    · rfl
  refine ⟨?_, ?_, ?_⟩
  · rw [index]
    exact ⟨room, ⟨fun _ member => absurd member not_mem_nil, sound_empty _⟩, claimed_empty⟩
  · intro node member
    rw [lru] at member
    cases member
  · rw [index]
    exact trace

end

/--
What a crash during a message leaves of the files of an index, with the number of missing records;
any snapshots may have become unreadable.
-/
structure MessageCrash (env : Environment) (before after : Index) (files : IndexFiles)
    (missing : Nat) : Prop where
  snapshots : ∀ file ∈ files.snapshots, file ∈ before.files.snapshots ∨ Unreadable env file
  closed : ∀ id ≠ before.wal, files.wals id = before.files.wals id
  cut : ∃ frames tail count,
    (∀ frame ∈ frames, Frame.Sized frame) ∧
      after.walBytes before.wal = before.walBytes before.wal ++ walLog env.xxh32 frames ∧
      (files.wals before.wal).getD [] = before.walBytes before.wal ++
        (walLog env.xxh32 (frames.take count) ++ tail) ∧
      Damaged env.xxh32 tail ∧ missing + count = frames.length
  small : ∀ id ≤ before.wal, ((files.wals id).getD []).length ≤
    walSizeField ((files.wals id).getD []).length

section
variable {world : World} {steps : List CacheStep} {cache after : Cache}

section
variable (kept : ClaimsKept world.env (PutIn steps) (EphemeralOnly steps) cache) {step : CacheStep}
  (claiming : Claiming step) (member : step ∈ steps)
  (stepped : cacheStep world cache step = some after) {files : IndexFiles} {missing : Nat}
  (crash : MessageCrash world.env cache.index after.index files missing)
  (whole : divides cache step = true → missing ≠ 1)
include kept claiming member stepped crash whole

/-- The records of the message that are left keep the claims. -/
theorem ClaimsKept.cut :
    ∃ (records : List Record) (tail : Bytes), (files.wals cache.index.wal).getD [] =
          walLog world.env.xxh32 (records.map Record.frame) ++ tail ∧ Damaged world.env.xxh32 tail ∧
        Keeping cache.index.bucketSize.toNat
          (Claimed (PutIn steps) (EphemeralOnly steps)) records := by
  rcases kept.trace.logs cache.index.wal with ⟨earlier, bytes, keeps⟩
  rcases crash.cut with ⟨frames, tail, count, sized, grown, left, damaged, total⟩
  rcases kept.logs claiming member stepped with logs | rolled
  · rcases logs.logged with ⟨records, extends_, keeping⟩
    have written := extends_.log
    rw [kept.trace.idle, grown] at written
    have same : frames = records.map Record.frame :=
      walLog_injective world.env.xxh32 sized (sized_frames records) (append_cancel_left written)
    refine ⟨earlier ++ records.take count, tail, ?_, damaged, ?_⟩
    · rw [left, bytes, same, map_append, map_take, walLog_append, append_assoc]
    · apply keeps.append
      apply keeping
      intro divided equal
      rw [same, length_map] at total
      have one := whole divided
      omega
  · have nothing : walLog world.env.xxh32 frames = [] := by
      rw [rolled] at grown
      rcases walBytes_indexDebounce world.env cache.index cache.index.wal with none_ | unchanged
      · rw [none_] at grown
        exact (append_eq_nil_iff.mp grown.symm).2
      · rw [unchanged] at grown
        exact self_eq_append_right.mp grown
    have none_ : frames = [] := walLog_injective world.env.xxh32 sized (by simp) nothing
    refine ⟨earlier, tail, ?_, damaged, keeps⟩
    rw [left, bytes, none_]
    simp

/-- The files that the crash leaves keep the claims. -/
theorem ClaimsKept.filesKeep :
    FilesKeep world.env (Claimed (PutIn steps) (EphemeralOnly steps))
      cache.index.bucketSize files where
  snapshots := by
    intro file present
    rcases crash.snapshots file present with old | unreadable
    · exact .inr (kept.trace.snapshots file old)
    · exact .inl unreadable
  logs := by
    intro id
    have small : ((files.wals id).getD []).length ≤
        walSizeField ((files.wals id).getD []).length := by
      rcases Nat.lt_or_ge cache.index.wal id with later | past
      · have nothing : (files.wals id).getD [] = [] := by
          rw [crash.closed id (Nat.ne_of_gt later)]
          exact kept.trace.unused id later
        rw [nothing]
        exact Nat.zero_le _
      · exact crash.small id past
    by_cases live : id = cache.index.wal
    · rcases kept.cut claiming member stepped crash whole with
        ⟨records, tail, bytes, damaged, keeping⟩
      rw [live, bytes] at small ⊢
      exact logKeeps_of_written keeping damaged small
    · rcases kept.trace.logs id with ⟨records, bytes, keeping⟩
      have same : (files.wals id).getD [] =
          walLog world.env.xxh32 (records.map Record.frame) ++ [] := by
        rw [crash.closed id live, append_nil]
        exact bytes
      rw [same] at small ⊢
      exact logKeeps_of_written keeping damaged_nil small

end

end

/--
After a crash at any record of the next message, a block that was only put with a claim is
claimed, unless the crash divides a first or a last claim.
-/
theorem ephemeral_blocks_stay_claimed {world : World} {config : CacheConfig} {write : SnapshotWrite}
    {start cache after : Cache}
    (created : blockCacheCreate world config (CacheFiles.fresh config.type) write = some start)
    {steps : List CacheStep} {step : CacheStep}
    (claiming : ∀ other ∈ steps ++ [step], Claiming other)
    (ran : cacheRun world start steps = some cache)
    (stepped : cacheStep world cache step = some after)
    (room : KnownRoom (PutIn (steps ++ [step])) config.indexBucketSize.toNat) {files : IndexFiles}
    {missing : Nat} (crash : MessageCrash world.env cache.index after.index files missing)
    (whole : divides cache step = true → missing ≠ 1) (write' : SnapshotWrite) (configured : UInt64)
    (maxSnapshots maxWals : Nat) :
    ∃ recovered code, indexCreate world.env write' files configured maxSnapshots maxWals =
          some (recovered, code) ∧
        ∀ hash entry, recovered.entryOf hash = some entry → EphemeralOnly (steps ++ [step]) hash →
            entry.ephemeralCount ≠ 0 ∧ indexEntryIsServable entry = false := by
  have last : step ∈ steps ++ [step] := by simp
  have kept := claimsKept_cacheRun (claimsKept_blockCacheCreate created room)
    (fun other member => claiming other (mem_append_left _ member))
    (fun other member => mem_append_left _ member) ran
  rcases indexCreate_keeps claimed_empty
    (kept.filesKeep (claiming step last) last stepped crash whole) with
    ⟨recovered, code, recovery, spec⟩
  refine ⟨recovered, code, recovery, ?_⟩
  intro hash entry found only
  rw [entryOf_eq_lookup] at found
  rcases (lookup_eq_some_iff spec.wellFormed.sound).mp found with ⟨member, rfl⟩
  have claimed := spec.holds.claims entry member only
  refine ⟨claimed, ?_⟩
  simp [indexEntryIsServable, claimed]

/-- The files of an index with further records in the live log. -/
def Index.filesWith (env : Environment) (index : Index) (records : List Record) : IndexFiles :=
  { index.files with
    wals := Function.update index.files.wals index.wal (some (index.walBytes index.wal ++
        walLog env.xxh32 (records.map Record.frame))) }

/-- A crash that leaves some of the records of a message. -/
theorem messageCrash_filesWith {env : Environment} {before after : Index}
    (log : after.walBytes before.wal = before.walBytes before.wal ++
      walLog env.xxh32 (records.map Record.frame)) (inside : count ≤ records.length)
    (small : ∀ id ≤ before.wal, (((before.filesWith env (records.take count)).wals id).getD
        []).length < 2 ^ 31) :
    MessageCrash env before after (before.filesWith env (records.take count))
      (records.length - count) := by
  refine ⟨fun file member => .inl member, ?_, ?_, ?_⟩
  · intro id other
    exact update_of_ne other _ _
  · refine ⟨records.map Record.frame, [], count, sized_frames records, log,
      ?_, damaged_nil, ?_⟩
    · simp [Index.filesWith, map_take]
    · rw [length_map]
      omega
  · intro id past
    exact le_of_eq (walSizeField_of_lt (small id past)).symm

/-- The put of a small block with a claim. -/
def putClaimed (byte : UInt8) : CacheStep :=
  .cache (.put ⟨nanoBlock byte, 0, true, 0⟩ 0)

/-- The entry of a small block that is put first, with claims. -/
def claimedEntry (byte : UInt8) (claims : UInt16) : IndexEntry :=
  indexEntrySetMetadata (newEntry ⟨nanoBlock byte, 0, true, 0⟩ 0 0) claims 0

/-- Whether the message writes the records, and how a log without some ends. -/
def cutClaims (cache : Cache) (step : CacheStep) (records : List Record)
    (count : Nat) (byte : UInt8) : Option (Option UInt16) :=
  (cacheStep (smallWorld reliableIo) cache step).bind fun after =>
    if after.index.walBytes cache.index.wal =
          cache.index.walBytes cache.index.wal ++ walLog referenceEnvironment.xxh32
              (records.map Record.frame) ∧ ∀ id ≤ cache.index.wal,
          (((cache.index.filesWith referenceEnvironment
            (records.take count)).wals id).getD []).length < 2 ^ 31 then
      (indexCreate referenceEnvironment .complete
        (cache.index.filesWith referenceEnvironment (records.take count))
        25 3 3).map fun recovered =>
          (recovered.1.entryOf (nanoBlock byte).hash).map IndexEntry.ephemeralCount
    else
      none

theorem crash_of_cutClaims (steps : List CacheStep) (step : CacheStep) (records : List Record)
    (byte : UInt8) (claims : UInt16) (inside : count ≤ records.length)
    (left : (createTiny.bind fun start =>
      (cacheRun (smallWorld reliableIo) start steps).bind fun cache =>
        cutClaims cache step records count byte) = some (some claims)) :
    ∃ start cache after recovered code entry, createTiny = some start ∧
        cacheRun (smallWorld reliableIo) start steps = some cache ∧
        cacheStep (smallWorld reliableIo) cache step = some after ∧
        MessageCrash referenceEnvironment cache.index after.index
          (cache.index.filesWith referenceEnvironment (records.take count))
          (records.length - count) ∧
        indexCreate referenceEnvironment .complete (cache.index.filesWith referenceEnvironment
              (records.take count)) 25 3 3 =
          some (recovered, code) ∧ recovered.entryOf (nanoBlock byte).hash = some entry ∧
        entry.ephemeralCount = claims := by
  rcases bind_eq_some_iff.mp left with ⟨start, created, left⟩
  rcases bind_eq_some_iff.mp left with ⟨cache, ran, left⟩
  rcases bind_eq_some_iff.mp left with ⟨after, stepped, left⟩
  split at left
  · rename_i written
    rcases map_eq_some_iff.mp left with ⟨⟨recovered, code⟩, recovery, found⟩
    rcases map_eq_some_iff.mp found with ⟨entry, here, counts⟩
    exact ⟨start, cache, after, recovered, code, entry, created, ran, stepped,
      messageCrash_filesWith written.1 inside written.2, recovery, here, counts⟩
  · cases left

theorem knownRoom_putClaimed
    (only : ∀ put now, .cache (.put put now) ∈ steps → put.block.hash = (nanoBlock byte).hash) :
    KnownRoom (PutIn steps) 25 := by
  apply Trie.FewKeys.room
  intro list distinct members
  have same : ∀ hash ∈ list, hash = (nanoBlock byte).hash := by
    intro hash member
    rcases members hash member with ⟨_, put, now, inside, rfl⟩
    exact only put now inside
  have short : list.length ≤ 1 := by
    rw [eq_replicate_iff.mpr ⟨rfl, same⟩] at distinct
    exact nodup_replicate.mp distinct
  omega

/-- A second claim survives a crash behind its record. -/
theorem second_claim_is_recovered :
    ∃ start cache after recovered code entry, createTiny = some start ∧
        cacheRun (smallWorld reliableIo) start
            [.cache (.indexSave .complete), putClaimed 1] = some cache ∧
        cacheStep (smallWorld reliableIo) cache (.cache (.ephemeral .acquire (nanoBlock 1).hash)) =
          some after ∧ MessageCrash referenceEnvironment cache.index after.index
          (cache.index.filesWith referenceEnvironment [.metadata (claimedEntry 1 2)]) 0 ∧
        indexCreate referenceEnvironment .complete (cache.index.filesWith referenceEnvironment
              [.metadata (claimedEntry 1 2)]) 25 3 3 =
          some (recovered, code) ∧ recovered.entryOf (nanoBlock 1).hash = some entry ∧
        entry.ephemeralCount ≠ 0 ∧ indexEntryIsServable entry = false := by
  rcases crash_of_cutClaims [.cache (.indexSave .complete), putClaimed 1]
    (.cache (.ephemeral .acquire (nanoBlock 1).hash)) [.metadata (claimedEntry 1 2)] 1 2
    (le_refl 1) (by decide +kernel) with
    ⟨start, cache, after, recovered, code, entry, created, ran, stepped, crash, recovery, found, _⟩
  have claiming : ∀ other ∈ [CacheStep.cache (.indexSave .complete),
      putClaimed 1, .cache (.ephemeral .acquire (nanoBlock 1).hash)],
      Claiming other := by
    simp only [mem_cons, not_mem_nil, or_false]
    rintro other (rfl | rfl | rfl)
    · exact .indexSave
    · exact .put _ _
    · exact .ephemeral _ _
  have puts (put : CachePut) (now : UInt64) (member : .cache (.put put now) ∈
        [CacheStep.cache (.indexSave .complete), putClaimed 1,
          .cache (.ephemeral .acquire (nanoBlock 1).hash)]) :
      put = ⟨nanoBlock 1, 0, true, 0⟩ := by
    simp only [mem_cons, not_mem_nil, or_false, putClaimed,
      CacheStep.cache.injEq, CacheMessage.put.injEq, reduceCtorEq, false_or] at member
    exact member.1
  have room : KnownRoom (PutIn _) tinyConfig.indexBucketSize.toNat :=
    knownRoom_putClaimed fun put now member => by rw [puts put now member]
  rcases ephemeral_blocks_stay_claimed created claiming ran stepped room
    crash (fun _ => Nat.zero_ne_one) .complete 25 3 3 with
    ⟨again, code', recovery', spec⟩
  rcases Prod.mk.inj (Option.some.inj (recovery.symm.trans recovery')) with ⟨rfl, rfl⟩
  have only : EphemeralOnly ([CacheStep.cache (.indexSave .complete), putClaimed 1] ++
        [.cache (.ephemeral .acquire (nanoBlock 1).hash)])
      (nanoBlock 1).hash := by
    constructor
    · intro put now member _
      rw [puts put now member]
    · simp [putClaimed]
  exact ⟨start, cache, after, recovered, code, entry, created, ran, stepped,
    crash, recovery, found, spec _ entry found only⟩

/-- A crash that divides a first or a last claim leaves the block without a claim. -/
theorem divided_claim_is_lost :
    (∃ start cache after recovered code entry, createTiny = some start ∧
        cacheRun (smallWorld reliableIo) start [.cache (.indexSave .complete)] = some cache ∧
        cacheStep (smallWorld reliableIo) cache (putClaimed 1) = some after ∧
        MessageCrash referenceEnvironment cache.index after.index
          (cache.index.filesWith referenceEnvironment [.addition (claimedEntry 1 0)]) 1 ∧
        indexCreate referenceEnvironment .complete (cache.index.filesWith referenceEnvironment
              [.addition (claimedEntry 1 0)]) 25 3 3 =
          some (recovered, code) ∧ recovered.entryOf (nanoBlock 1).hash = some entry ∧
        entry.ephemeralCount = 0) ∧
      ∃ start cache after recovered code entry, createTiny = some start ∧
          cacheRun (smallWorld reliableIo) start [.cache (.indexSave .complete), putClaimed 1] =
            some cache ∧
          cacheStep (smallWorld reliableIo) cache
              (.cache (.ephemeral .release (nanoBlock 1).hash)) = some after ∧
          MessageCrash referenceEnvironment cache.index after.index
            (cache.index.filesWith referenceEnvironment [.metadata (claimedEntry 1 0)]) 1 ∧
          indexCreate referenceEnvironment .complete (cache.index.filesWith referenceEnvironment
                [.metadata (claimedEntry 1 0)]) 25 3 3 =
            some (recovered, code) ∧ recovered.entryOf (nanoBlock 1).hash = some entry ∧
          entry.ephemeralCount = 0 := by
  constructor
  · exact crash_of_cutClaims _ _ [.addition (claimedEntry 1 0), .metadata (claimedEntry 1 1)] 1 0
      (Nat.le_succ 1) (by decide +kernel)
  · exact crash_of_cutClaims _ _ [.metadata (claimedEntry 1 0), .removal (nanoBlock 1).hash] 1 0
      (Nat.le_succ 1) (by decide +kernel)

end Liboffs.BlockCache
