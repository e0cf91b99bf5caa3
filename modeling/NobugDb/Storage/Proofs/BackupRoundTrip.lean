import NobugDb.Storage.Proofs.BackupManifest

/-!
# Restoring a backup

What a restore leaves after a backup: every file of the backup whose name has no line break, be it
from the data directory or from what the output directory held before. The restored directory has
the files of the data directory exactly when the output directory held no other file, no name of
the data directory has a line break and none is that of the manifest.
-/

namespace NobugDb.Backup

open Misc (Tree Node)
open Exn (bind_eq_ok)

theorem orThrow_eq_ok {α : Type} {hit : Option α} {x : α} (done : orThrow hit = .ok x) :
    hit = some x := by
  cases hit with
  | none => cases done
  | some y => cases done; rfl

/-! ## The copy -/

variable {dest dest' : Directory} {entry : ManifestEntry}

theorem file?_copyEntry {path : Path} {node : Node Text}
    (copied : copyEntry dest (path, node) = .ok dest') (other : Path) :
    dest'.file? other = match node with
      | .file content => if other = path then some content else dest.file? other
      | .directory => dest.file? other := by
  cases node with
  | directory => exact Tree.file?_createDirectories (orThrow_eq_ok copied) other
  | file content =>
    obtain ⟨between, made, written⟩ := Exn.bind_eq_ok copied
    rw [Tree.file?_writeFile (orThrow_eq_ok written)]
    rw [Tree.file?_createDirectories (orThrow_eq_ok made)]

theorem file?_foldlM_copyEntry {entries : List (Path × Node Text)}
    (nodup : (entries.map Prod.fst).Nodup) (copied : entries.foldlM copyEntry dest = .ok dest')
    (path : Path) :
    (∀ content, (path, Node.file content) ∈ entries → dest'.file? path = some content) ∧
      ((∀ content, (path, Node.file content) ∉ entries) → dest'.file? path = dest.file? path) := by
  induction entries generalizing dest with
  | nil => cases copied; simp
  | cons e entries ih =>
    obtain ⟨here, node⟩ := e
    obtain ⟨head, tail⟩ := List.nodup_cons.mp nodup
    rw [List.foldlM_cons] at copied
    obtain ⟨between, one, rest⟩ := Exn.bind_eq_ok copied
    obtain ⟨written, kept⟩ := ih tail rest
    have first := file?_copyEntry one path
    refine ⟨?_, ?_⟩
    · intro content mem
      rcases List.mem_cons.mp mem with eq | later
      · cases eq
        -- No later entry has the path of the first.
        have noLater : ∀ content, (path, Node.file content) ∉ entries :=
          fun _ later => head (List.mem_map.mpr ⟨_, later, rfl⟩)
        rw [kept noLater, first]
        exact if_pos rfl
      · exact written content later
    · intro absent
      rw [kept (fun content later => absent content (List.mem_cons_of_mem _ later)), first]
      cases node with
      | directory => rfl
      | file content =>
        apply if_neg
        rintro rfl
        exact absent content List.mem_cons_self

/-- The files of a copy: those of the source, and what was there before under other paths. -/
theorem Host.file?_copyData {host : Host} {source : Directory}
    (copied : host.copyDataDirectory source dest = .ok dest') (path : Path) :
    dest'.file? path = (source.file? path).or (dest.file? path) := by
  have perm := host.iterate_perm source.entries
  have nodup : ((host.iterate source.entries).map Prod.fst).Nodup :=
    (perm.map Prod.fst).nodup_iff.mpr source.distinct
  obtain ⟨written, kept⟩ := file?_foldlM_copyEntry nodup copied path
  cases hit : source.file? path with
  | some content =>
    exact written content (perm.mem_iff.mpr (Tree.file?_eq_some_iff.mp hit))
  | none =>
    rw [Option.none_or]
    apply kept
    intro content mem
    have isFile := Tree.file?_eq_some_iff.mpr (perm.mem_iff.mp mem)
    exact nomatch hit.symm.trans isFile

/-! ## The manifest -/

theorem ne_nil_of_file? {dir : Directory} {path : Path} {content : Text}
    (hit : dir.file? path = some content) : path ≠ [] :=
  (dir.closed path (List.mem_map.mpr ⟨_, Tree.file?_eq_some_iff.mp hit, rfl⟩)).1

theorem Host.mem_buildManifest {host : Host} {directory : Directory} :
    entry ∈ host.buildManifest directory ↔
      ∃ path content, directory.file? path = some content ∧ path ≠ manifestPath ∧
        entry = host.manifestEntry path content := by
  unfold buildManifest
  rw [List.mem_filterMap]
  constructor
  · rintro ⟨⟨path, node⟩, mem, listed⟩
    cases node with
    | directory => cases listed
    | file content =>
      have hit := Tree.file?_eq_some_iff.mpr ((host.iterate_perm _).mem_iff.mp mem)
      dsimp only at listed
      split at listed
      · cases listed
      · next ne =>
        cases listed
        refine ⟨path, content, hit, ?_, rfl⟩
        intro manifest
        exact ne ((text_eq_manifestFileName (ne_nil_of_file? hit)).mpr manifest)
  · rintro ⟨path, content, hit, ne, rfl⟩
    have mem := (host.iterate_perm _).mem_iff.mpr (Tree.file?_eq_some_iff.mp hit)
    refine ⟨(path, .file content), mem, ?_⟩
    apply if_neg
    intro named
    exact ne ((text_eq_manifestFileName (ne_nil_of_file? hit)).mp named)

theorem UtcTime.notMem_text (t : UtcTime) : '\n' ∉ t.text := by
  have digits := notMem_toDigits (show '\n'.isDigit = false by decide)
  have two : ∀ n, '\n' ∉ twoDigits n := by
    intro n
    unfold twoDigits
    split <;> simp [digits]
  have sign : '\n' ∉ (if t.year < 0 then ['-'] else []) := by split <;> simp
  simp [UtcTime.text, digits, two, sign]

/-! ## The checks and the restored files -/

theorem Host.verified {host : Host} {backup : Directory} {files : List ManifestEntry}
    (passed : files.forM (host.verifyChecksum backup) = .ok ()) (mem : entry ∈ files) :
    ∃ path content, resolve entry.relativePath = some path ∧ backup.file? path = some content ∧
      entry.sha256Hex = host.computeFileSha256 content := by
  induction files with
  | nil => cases mem
  | cons fst files ih =>
    obtain ⟨⟨⟩, one, rest⟩ := bind_eq_ok passed
    rcases List.mem_cons.mp mem with rfl | later
    · unfold verifyChecksum at one
      split at one
      · cases one
      · next content hit =>
        obtain ⟨path, leads, isFile⟩ := Option.bind_eq_some_iff.mp hit
        split at one
        · cases one
        · split at one
          · cases one
          · next eq => exact ⟨path, content, leads, isFile, (not_not.mp eq).symm⟩
    · exact ih rest later

theorem file?_replaceDataDirectory {backup target target' : Directory} {files : List ManifestEntry}
    (replaced : files.foldlM (restoreEntry backup) target = .ok target') (path : Path) :
    ((∃ entry ∈ files, resolve entry.relativePath = some path) →
        target'.file? path = backup.file? path) ∧
      ((∀ entry ∈ files, resolve entry.relativePath ≠ some path) →
        target'.file? path = target.file? path) := by
  induction files generalizing target with
  | nil => cases replaced; simp
  | cons fst files ih =>
    rw [List.foldlM_cons] at replaced
    obtain ⟨between, one, rest⟩ := bind_eq_ok replaced
    obtain ⟨listed, unlisted⟩ := ih rest
    obtain ⟨here, leads, one⟩ := bind_eq_ok one
    obtain ⟨content, hit, one⟩ := bind_eq_ok one
    obtain ⟨made, directories, written⟩ := bind_eq_ok one
    have fst : between.file? path = if path = here then some content else target.file? path := by
      rw [Tree.file?_writeFile (orThrow_eq_ok written)]
      rw [Tree.file?_createDirectories (orThrow_eq_ok directories)]
    refine ⟨?_, ?_⟩
    · rintro ⟨entry, mem, isEntry⟩
      by_cases later : ∃ entry ∈ files, resolve entry.relativePath = some path
      · exact listed later
      · -- The path is that of the first entry and of no later one.
        rw [unlisted (fun ne among eq => later ⟨ne, among, eq⟩), fst]
        rcases List.mem_cons.mp mem with rfl | among
        · obtain rfl : path = here :=
            Option.some.inj (isEntry.symm.trans (orThrow_eq_ok leads))
          rw [if_pos rfl, orThrow_eq_ok hit]
        · exact absurd ⟨entry, among, isEntry⟩ later
    · intro absent
      rw [unlisted (fun entry among => absent entry (List.mem_cons_of_mem _ among)), fst]
      apply if_neg
      rintro rfl
      exact absent _ List.mem_cons_self (orThrow_eq_ok leads)

namespace Host

variable {host : Host} {data output copied out restored : Directory} {createdAt : Text}
  {files : List ManifestEntry} {path : Path} {content : Text}

/-- A restore from what a backup has written over a copy. -/
structure Restores (host : Host) (copied : Directory) (createdAt : Text) (out : Directory)
    (files : List ManifestEntry) (restored : Directory) : Prop where
  clear : '\n' ∉ createdAt
  written : copied.writeFile manifestPath (manifestText createdAt (host.buildManifest copied)) = some out
  read : readEntries ((host.buildManifest copied).flatMap (fun file => file.line.splitOn '\n')) =
    .ok files
  verified : files.forM (host.verifyChecksum out) = .ok ()
  replaced : files.foldlM (restoreEntry out) Tree.empty = .ok restored

namespace Restores

/-- The path of an entry that is read from the manifest. -/
def Listed (files : List ManifestEntry) (path : Path) : Prop :=
  ∃ entry ∈ files, resolve entry.relativePath = some path

variable (r : host.Restores copied createdAt out files restored)
include r

theorem file?_out (path : Path) :
    out.file? path = if path = manifestPath then
      some (manifestText createdAt (host.buildManifest copied)) else copied.file? path :=
  Tree.file?_writeFile r.written path

theorem file?_of_listed (listed : Listed files path) : restored.file? path = out.file? path :=
  (file?_replaceDataDirectory r.replaced path).1 listed

theorem file?_of_not_listed (unlisted : ¬ Listed files path) : restored.file? path = none :=
  (file?_replaceDataDirectory r.replaced path).2
    (fun entry mem leads => unlisted ⟨entry, mem, leads⟩)

theorem origin (mem : entry ∈ files) :
    ∃ path content, copied.file? path = some content ∧ path ≠ manifestPath ∧
      ∃ line ∈ (host.manifestEntry path content).line.splitOn '\n', readEntry line = .ok entry := by
  obtain ⟨line, among, isEntry⟩ := (readEntries_eq_ok r.read).2 entry mem
  obtain ⟨file, isFile, ofFile⟩ := List.mem_flatMap.mp among
  obtain ⟨path, content, hit, ne, rfl⟩ := mem_buildManifest.mp isFile
  exact ⟨path, content, hit, ne, line, ofFile, isEntry⟩

theorem notMem_tab (mem : entry ∈ files) : '\t' ∉ entry.sha256Hex := by
  obtain ⟨_, content, -, -, digest⟩ := host.verified r.verified mem
  rw [digest]
  exact notMem_computeFileSha256 (by decide) content

theorem notMem_break (listed : Listed files path) : '\n' ∉ path.text := by
  obtain ⟨entry, mem, leads⟩ := listed
  obtain ⟨_, _, -, -, line, among, isEntry⟩ := r.origin mem
  have clear := Misc.not_mem_of_mem_splitOn among
  obtain ⟨sizeText, parts, -, -⟩ := readEntry_eq_ok clear isEntry
  intro broken
  apply clear
  rw [parts]
  exact List.mem_append_left _ (mem_text_of_resolve leads (by decide) broken)

/-- A line that has no break is the whole line of its file, and is read as an entry for it. -/
theorem listed_of_file? (hit : copied.file? path = some content) (ne : path ≠ manifestPath)
    (clear : '\n' ∉ path.text) : Listed files path := by
  have whole : (host.manifestEntry path content).line.splitOn '\n' =
      [(host.manifestEntry path content).line] :=
    List.splitOn_eq_singleton (notMem_line clear content)
  have among : (host.manifestEntry path content).line ∈
      (host.buildManifest copied).flatMap (fun file => file.line.splitOn '\n') := by
    apply List.mem_flatMap.mpr
    refine ⟨_, mem_buildManifest.mpr ⟨path, content, hit, ne, rfl⟩, ?_⟩
    rw [whole]
    exact List.mem_singleton_self _
  obtain ⟨entry, mem, isEntry⟩ :=
    (readEntries_eq_ok r.read).1 _ among (line_ne_nil path content)
  refine ⟨entry, mem, ?_⟩
  rw [relativePath_of_readEntry clear isEntry (r.notMem_tab mem)]
  exact resolve_text (ne_nil_of_file? hit)

end Restores

/-- A line of a name with a line break is read as an entry for the manifest. -/
def ListsManifest (host : Host) (data output : Directory) : Prop :=
  ∃ (path : Path) (content : Text),
    (data.file? path).or (output.file? path) = some content ∧ '\n' ∈ path.text ∧
    ∃ line ∈ (host.manifestEntry path content).line.splitOn '\n', ∃ entry : ManifestEntry,
      readEntry line = .ok entry ∧ resolve entry.relativePath = some manifestPath

/-- The text of the manifest of a copy. -/
def copiedManifest (host : Host) (data output : Directory) : Except Exn Text := do
  let copied ← host.copyDataDirectory data output
  let createdAt ← host.formatTimestampUtc
  pure (manifestText createdAt (host.buildManifest copied))

theorem Restores.listed_manifestPath_iff (r : host.Restores copied createdAt out files restored)
    (copy : host.copyDataDirectory data output = .ok copied) :
    Restores.Listed files manifestPath ↔ host.ListsManifest data output := by
  constructor
  · rintro ⟨entry, mem, leads⟩
    obtain ⟨path, content, hit, ne, line, among, isEntry⟩ := r.origin mem
    refine ⟨path, content, ?_, ?_, line, among, entry, isEntry, leads⟩
    · rw [← file?_copyData copy]
      exact hit
    · -- A name without a line break is listed as itself.
      by_contra clear
      rw [List.splitOn_eq_singleton (notMem_line clear content), List.mem_singleton] at among
      subst among
      rw [relativePath_of_readEntry clear isEntry (r.notMem_tab mem),
        resolve_text (ne_nil_of_file? hit)] at leads
      exact ne (Option.some.inj leads)
  · rintro ⟨path, content, hit, broken, line, among, entry, isEntry, leads⟩
    have isFile : copied.file? path = some content := by
      rw [file?_copyData copy]
      exact hit
    have ne : path ≠ manifestPath := by
      rintro rfl
      exact absurd broken (by decide)
    have isLine : line ∈ (host.buildManifest copied).flatMap (fun file => file.line.splitOn '\n') :=
      List.mem_flatMap.mpr ⟨_, mem_buildManifest.mpr ⟨path, content, isFile, ne, rfl⟩, among⟩
    have nonempty : line ≠ [] := by
      rintro rfl
      cases isEntry
    obtain ⟨eq, mem, again⟩ := (readEntries_eq_ok r.read).1 line isLine nonempty
    cases isEntry.symm.trans again
    exact ⟨entry, mem, leads⟩

/-! ## A backup and its restore -/

section RoundTrip

variable {backup : BackupRequest} {restore : RestoreRequest} {source prior target : Option Directory}

theorem executeBackup_eq_ok (done : host.executeBackup backup source prior = .ok (data, out)) :
    ∃ copied createdAt, host.runCheckpoint source = .ok (some data) ∧
      host.copyDataDirectory data (prior.getD Tree.empty) = .ok copied ∧
      host.formatTimestampUtc = .ok createdAt ∧
      copied.writeFile manifestPath (manifestText createdAt (host.buildManifest copied)) = some out := by
  unfold executeBackup at done
  dsimp only at done
  split at done
  · cases done
  split at done
  · cases done
  obtain ⟨⟨⟩, -, done⟩ := bind_eq_ok done
  obtain ⟨hit, checkpointed, done⟩ := bind_eq_ok done
  cases hit with
  | none => cases done
  | some hit =>
    obtain ⟨copied, copy, done⟩ := bind_eq_ok done
    obtain ⟨createdAt, formatted, done⟩ := bind_eq_ok done
    obtain ⟨written, isWritten, done⟩ := bind_eq_ok done
    cases done
    refine ⟨copied, createdAt, checkpointed, copy, formatted, ?_⟩
    unfold writeManifest at isWritten
    split at isWritten
    · next wrote => cases isWritten; exact wrote
    · cases isWritten

theorem executeRestore_eq_ok (done : host.executeRestore restore out target = .ok restored) :
    ∃ files, readManifest restore out = .ok files ∧ files.forM (host.verifyChecksum out) = .ok () ∧
      files.foldlM (restoreEntry out) Tree.empty = .ok restored := by
  unfold executeRestore at done
  dsimp only at done
  split at done
  · cases done
  obtain ⟨files, read, done⟩ := bind_eq_ok done
  obtain ⟨⟨⟩, verified, done⟩ := bind_eq_ok done
  split at done
  · cases done
  · exact ⟨files, read, verified, done⟩

theorem notMem_of_formatTimestampUtc (formatted : host.formatTimestampUtc = .ok createdAt) :
    '\n' ∉ createdAt := by
  unfold formatTimestampUtc at formatted
  dsimp only at formatted
  split at formatted
  · cases formatted
    exact UtcTime.notMem_text _
  · cases formatted

/-- When a restored directory has the files of the data directory: no name of the data directory
    has a line break; the output directory held no other file that is listed; and the manifest is
    neither a file of the data directory nor restored, or it is both. -/
structure Restorable (host : Host) (data output : Directory) : Prop where
  unbroken : ∀ path : Path, data.file? path ≠ none → '\n' ∉ path.text
  known : ∀ path : Path, output.file? path ≠ none →
    data.file? path ≠ none ∨ path = manifestPath ∨ '\n' ∈ path.text
  manifest : ¬ host.ListsManifest data output ∧ data.file? manifestPath = none ∨
    host.ListsManifest data output ∧
      ∃ text, host.copiedManifest data output = .ok text ∧ data.file? manifestPath = some text

theorem Restores.files_iff_restorable (r : host.Restores copied createdAt out files restored)
    (copy : host.copyDataDirectory data output = .ok copied)
    (formatted : host.formatTimestampUtc = .ok createdAt) :
    (∀ path, restored.file? path = data.file? path) ↔ host.Restorable data output := by
  have lists := r.listed_manifestPath_iff copy
  have isText : host.copiedManifest data output =
      .ok (manifestText createdAt (host.buildManifest copied)) := by
    unfold copiedManifest
    rw [copy, formatted]
    rfl
  have atManifest : out.file? manifestPath =
      some (manifestText createdAt (host.buildManifest copied)) := by
    rw [r.file?_out, if_pos rfl]
  constructor
  · intro eq
    refine ⟨?_, ?_, ?_⟩
    · intro path there broken
      apply there
      rw [← eq]
      exact r.file?_of_not_listed (fun listed => r.notMem_break listed broken)
    · intro path there
      by_contra others
      obtain ⟨notData, notManifest, clear⟩ := by simpa only [not_or, not_not] using others
      obtain ⟨content, hit⟩ := Option.ne_none_iff_exists'.mp there
      have isCopied : copied.file? path = some content := by
        rw [file?_copyData copy, notData, Option.none_or]
        exact hit
      have listed := r.listed_of_file? isCopied notManifest clear
      have isRestored := r.file?_of_listed listed
      rw [eq, notData, r.file?_out, if_neg notManifest, isCopied] at isRestored
      cases isRestored
    · by_cases listed : Restores.Listed files manifestPath
      · right
        refine ⟨lists.mp listed, _, isText, ?_⟩
        rw [← eq, r.file?_of_listed listed, atManifest]
      · left
        refine ⟨fun mentioned => listed (lists.mpr mentioned), ?_⟩
        rw [← eq, r.file?_of_not_listed listed]
  · intro restorable path
    by_cases broken : '\n' ∈ Path.text path
    · rw [r.file?_of_not_listed (fun listed => r.notMem_break listed broken)]
      by_contra there
      exact restorable.unbroken path (Ne.symm there) broken
    by_cases isManifest : path = manifestPath
    · subst isManifest
      rcases restorable.manifest with ⟨unlisted, absent⟩ | ⟨listed, text, written, hit⟩
      · rw [r.file?_of_not_listed (fun listed => unlisted (lists.mp listed)), absent]
      · rw [r.file?_of_listed (lists.mpr listed), atManifest, hit]
        exact congrArg some (Except.ok.inj (isText.symm.trans written))
    · have ofData : copied.file? path = data.file? path := by
        rw [file?_copyData copy]
        cases hit : data.file? path with
        | some content => rfl
        | none =>
          rw [Option.none_or]
          by_contra there
          rcases restorable.known path there with known | manifest | breaks
          · exact known hit
          · exact isManifest manifest
          · exact broken breaks
      by_cases listed : Restores.Listed files path
      · rw [r.file?_of_listed listed, r.file?_out, if_neg isManifest, ofData]
      · rw [r.file?_of_not_listed listed, ← ofData]
        cases hit : copied.file? path with
        | none => rfl
        | some content => exact absurd (r.listed_of_file? hit isManifest broken) listed

/-- After a backup and a restore of it, the restored directory has the files that the data
    directory had after its checkpoint, and no others, exactly when these can be restored. -/
theorem restored_files_iff (backedUp : host.executeBackup backup source prior = .ok (data, out))
    (isRestored : host.executeRestore restore out target = .ok restored) :
    (∀ path, restored.file? path = data.file? path) ↔
      host.Restorable data (prior.getD Tree.empty) := by
  obtain ⟨copied, createdAt, -, copy, formatted, written⟩ := executeBackup_eq_ok backedUp
  obtain ⟨files, read, verified, replaced⟩ := executeRestore_eq_ok isRestored
  have clear := notMem_of_formatTimestampUtc formatted
  have atManifest : out.file? manifestPath =
      some (manifestText createdAt (host.buildManifest copied)) := by
    rw [Tree.file?_writeFile written, if_pos rfl]
  rw [readManifest_manifestText clear atManifest] at read
  have restores : host.Restores copied createdAt out files restored :=
    ⟨clear, written, read, verified, replaced⟩
  exact restores.files_iff_restorable copy formatted

/-- A host with a fixed clock, whose checkpoint changes nothing. -/
def fixed : Host where
  runCheckpoint data := .ok data
  weaklyCanonical _ := none
  iterate entries := entries
  iterate_perm _ := .refl _
  sha256 content := Vector.replicate 32 (UInt8.ofNat content.length)
  now := ⟨2026, 1, 2, 3, 4, 5⟩

def oneFile (name : Name) (content : Text) : Directory where
  entries := [([name], .file content)]
  distinct := List.nodup_singleton _
  closed := by simp

theorem file?_oneFile {name : Name} (there : (oneFile name content).file? path ≠ none) :
    path = [name] := by
  obtain ⟨ne, hit⟩ := Option.ne_none_iff_exists'.mp there
  have mem := Tree.file?_eq_some_iff.mp hit
  simp only [oneFile, List.mem_singleton, Prod.mk.injEq] at mem
  exact mem.1

/-- What stands at a path of the data directory and of the restored directory. -/
def atPath (host : Host) (source prior : Option Directory) (path : Path) :
    Except Exn (Option Text × Option Text) := do
  let (data, out) ← host.executeBackup ⟨['d'], ['o']⟩ source prior
  let restored ← host.executeRestore ⟨['o'], ['t'], false⟩ out none
  pure (data.file? path, restored.file? path)

theorem exists_of_atPath {hit : Option Text × Option Text}
    (vals : host.atPath source prior path = .ok hit) :
    ∃ data out restored, host.executeBackup ⟨['d'], ['o']⟩ source prior = .ok (data, out) ∧
      host.executeRestore ⟨['o'], ['t'], false⟩ out none = .ok restored ∧
      hit = (data.file? path, restored.file? path) := by
  obtain ⟨⟨data, out⟩, backedUp, vals⟩ := bind_eq_ok vals
  obtain ⟨restored, isRestored, vals⟩ := bind_eq_ok vals
  cases vals
  exact ⟨data, out, restored, backedUp, isRestored, rfl⟩

/-- A data directory with one table, backed up into a new directory. -/
theorem one_table_restored : ∃ data out restored,
    fixed.executeBackup ⟨['d'], ['o']⟩ (some (oneFile ⟨"users.db".toList, by decide⟩ ['u'])) none =
      .ok (data, out) ∧
    fixed.executeRestore ⟨['o'], ['t'], false⟩ out none = .ok restored ∧
    ∀ path, restored.file? path = data.file? path := by
  have evaluated : fixed.atPath (some (oneFile ⟨"users.db".toList, by decide⟩ ['u'])) none
      manifestPath = .ok (none, none) := by rfl
  obtain ⟨data, out, restored, backedUp, isRestored, -⟩ := exists_of_atPath evaluated
  refine ⟨data, out, restored, backedUp, isRestored, (restored_files_iff backedUp isRestored).mpr ?_⟩
  obtain ⟨_, _, checkpointed, -⟩ := executeBackup_eq_ok backedUp
  cases checkpointed
  refine ⟨?_, ?_, .inl ⟨?_, rfl⟩⟩
  · intro path there
    rw [file?_oneFile there]
    decide
  · intro path there
    exact absurd rfl there
  · rintro ⟨path, content, found, broken, -⟩
    have there : (oneFile ⟨"users.db".toList, by decide⟩ ['u']).file? path ≠ none := by
      intro absent
      rw [absent] at found
      cases found
    rw [file?_oneFile there] at broken
    exact absurd broken (by decide)

/-- A file that the output directory held before is restored with the data directory. -/
theorem leftover_restored : ∃ data out restored path,
    fixed.executeBackup ⟨['d'], ['o']⟩ (some (oneFile ⟨"users.db".toList, by decide⟩ ['u']))
        (some (oneFile ⟨"old.db".toList, by decide⟩ ['x'])) = .ok (data, out) ∧
    fixed.executeRestore ⟨['o'], ['t'], false⟩ out none = .ok restored ∧
    data.file? path = none ∧ restored.file? path = some ['x'] := by
  have evaluated : fixed.atPath (some (oneFile ⟨"users.db".toList, by decide⟩ ['u']))
      (some (oneFile ⟨"old.db".toList, by decide⟩ ['x'])) [⟨"old.db".toList, by decide⟩] =
      .ok (none, some ['x']) := by rfl
  obtain ⟨data, out, restored, backedUp, isRestored, found⟩ := exists_of_atPath evaluated
  obtain ⟨inData, inRestored⟩ := Prod.mk.inj found
  exact ⟨data, out, restored, _, backedUp, isRestored, inData.symm, inRestored.symm⟩

end RoundTrip

end Host

end NobugDb.Backup
