import NobugDb.Misc.Delimited
import NobugDb.Storage.Backup

/-!
# What a manifest says

The manifest that a backup writes and the entries that a restore reads back. A name without a line
break and without a tab is read back as it was written; a name with a tab is never verified, and
the lines of a name with a line break are read as entries of their own.
-/

namespace NobugDb.Backup

open List (mem_cons mem_cons_of_mem mem_map splitOn_eq_singleton)

/-! ## Names and paths -/

theorem Name.of?_text (name : Name) : Name.of? name.text = some name := dif_pos name.proper

theorem Name.of?_eq_some {text : Text} {name : Name} (hit : Name.of? text = some name) :
    name.text = text := by
  unfold Name.of? at hit
  split at hit
  · cases hit
    rfl
  · cases hit

theorem Name.notMem_slash (name : Name) : '/' ∉ name.text := by
  have proper := name.proper
  simp only [isName, Bool.and_eq_true] at proper
  simpa using proper.2

theorem Name.kept (name : Name) : (name.text != [] && name.text != ['.']) = true := by
  have proper := name.proper
  simp only [isName, Bool.and_eq_true] at proper ⊢
  exact proper.1.1

theorem mapM_of?_map_text (path : Path) : (path.map Name.text).mapM Name.of? = some path := by
  induction path with
  | nil => rfl
  | cons name path ih => simp [List.mapM_cons, Name.of?_text, ih]

variable {c : Char} {path : Path} {stream : Text}

theorem mem_mapM_of? {pieces : List Text} (named : pieces.mapM Name.of? = some path) {name : Name}
    (mem : name ∈ path) : name.text ∈ pieces := by
  induction pieces generalizing path with
  | nil =>
    cases named
    cases mem
  | cons piece pieces ih =>
    rw [List.mapM_cons] at named
    obtain ⟨fst, isFirst, named⟩ := Option.bind_eq_some_iff.mp named
    obtain ⟨rest, isRest, named⟩ := Option.bind_eq_some_iff.mp named
    cases named
    rcases mem_cons.mp mem with rfl | later
    · rw [Name.of?_eq_some isFirst]
      exact List.mem_cons_self
    · exact mem_cons_of_mem _ (ih isRest later)

theorem resolve_text (nonempty : path ≠ []) : resolve path.text = some path := by
  have pieces : path.text.splitOn '/' = path.map Name.text := by
    apply List.splitOn_intercalate
    · intro text mem
      obtain ⟨name, -, rfl⟩ := mem_map.mp mem
      exact name.notMem_slash
    · simpa using nonempty
  obtain ⟨parents, name, rfl⟩ := (List.eq_nil_or_concat' path).resolve_left nonempty
  have kept : (parents.map Name.text).filter (fun piece => piece != [] && piece != ['.']) =
      parents.map Name.text := by
    rw [List.filter_eq_self]
    intro text mem
    obtain ⟨parent, -, rfl⟩ := mem_map.mp mem
    exact parent.kept
  simp only [resolve, pieces, List.map_append, List.map_singleton,
    List.dropLast_concat, kept, mapM_of?_map_text, List.getLastD_concat, Name.of?_text]
  rfl

theorem mem_text_of_resolve {text : Text} (leads : resolve text = some path) (apart : c ≠ '/')
    (mem : c ∈ path.text) : c ∈ text := by
  obtain ⟨name, isName, leads⟩ := Option.bind_eq_some_iff.mp leads
  obtain ⟨parents, areParents, leads⟩ := Option.bind_eq_some_iff.mp leads
  cases leads
  rcases Misc.mem_intercalate mem with slash | ⟨piece, among, isIn⟩
  · exact absurd slash apart
  · obtain ⟨ne, isPart, rfl⟩ := mem_map.mp among
    have ofText : ne.text ∈ text.splitOn '/' := by
      rcases List.mem_append.mp isPart with parent | last
      · have kept := mem_mapM_of? areParents parent
        exact List.mem_of_mem_dropLast (List.mem_filter.mp kept).1
      · rw [List.mem_singleton.mp last, Name.of?_eq_some isName]
        rw [List.getLastD_eq_getLast?, List.getLast?_eq_some_getLast (List.splitOn_ne_nil '/' text)]
        exact List.getLast_mem _
    exact Misc.mem_of_mem_splitOn ofText isIn

theorem text_eq_manifestFileName (nonempty : path ≠ []) :
    path.text = manifestFileName ↔ path = manifestPath := by
  constructor
  · intro eq
    have leads : resolve manifestFileName = some path := eq ▸ resolve_text nonempty
    have manifest : resolve manifestPath.text = some manifestPath :=
      resolve_text (List.cons_ne_nil _ _)
    exact Option.some.inj (leads.symm.trans manifest)
  · rintro rfl
    rfl

/-! ## Lines -/

theorem splitOn_flatMap (pieces : List Text) :
    (pieces.flatMap (· ++ ['\n'])).splitOn '\n' = pieces.flatMap (List.splitOn '\n') ++ [[]] := by
  induction pieces with
  | nil => rfl
  | cons piece pieces ih =>
    rw [List.flatMap_cons, List.append_assoc, List.singleton_append, List.splitOn_append_cons_self, ih,
      List.flatMap_cons, List.append_assoc]

theorem lines_flatMap (pieces : List Text) :
    lines (pieces.flatMap (· ++ ['\n'])) = pieces.flatMap (List.splitOn '\n') := by
  unfold lines
  rw [splitOn_flatMap]
  simp

theorem getline_eq_some {before after : Text} (read : getline c stream = some (before, after)) :
    c ∉ before ∧ (after ≠ [] → stream = before ++ c :: after) ∧ (c ∉ stream → before = stream) := by
  unfold getline at read
  split at read
  · cases read
  · cases read
    have absent : c ∉ stream.takeWhile (· != c) := fun mem => by
      have passed := List.mem_takeWhile_imp mem
      simp at passed
    refine ⟨absent, ?_, ?_⟩
    · intro more
      have joined : stream.takeWhile (· != c) ++ stream.dropWhile (· != c) = stream :=
        List.takeWhile_append_dropWhile
      cases rest : stream.dropWhile (· != c) with
      | nil =>
        rw [rest] at more
        exact absurd rfl more
      | cons x tail =>
        have stops : (x != c) = false := by
          have head := List.head?_dropWhile_not (· != c) stream
          rw [rest] at head
          simpa using head
        obtain rfl : x = c := by simpa using stops
        rw [rest] at joined
        exact joined.symm
    · intro clear
      rw [List.takeWhile_eq_self_iff]
      intro x mem
      simp only [bne_iff_ne]
      rintro rfl
      exact clear mem

theorem ne_nil_of_getline {read : Text × Text} (hit : getline c stream = some read) :
    stream ≠ [] := by
  rintro rfl
  cases hit

/-! ## Entries -/

theorem readField_eq_ok {line : Text} {read : Text × Text} (done : readField line c stream = .ok read) :
    getline c stream = some read := by
  unfold readField at done
  split at done
  · next hit => cases done; exact hit
  · cases done

theorem readEntry_eq_ok {line : Text} {entry : ManifestEntry} (clear : '\n' ∉ line)
    (read : readEntry line = .ok entry) :
    ∃ sizeText, line = entry.relativePath ++ '\t' :: (sizeText ++ '\t' :: entry.sha256Hex) ∧
      '\t' ∉ entry.relativePath ∧ '\t' ∉ sizeText := by
  obtain ⟨⟨relativePath, stream⟩, fst, read⟩ := Exn.bind_eq_ok read
  obtain ⟨⟨sizeText, rest⟩, second, read⟩ := Exn.bind_eq_ok read
  obtain ⟨⟨sha256Hex, tail⟩, third, read⟩ := Exn.bind_eq_ok read
  obtain ⟨size, -, read⟩ := Exn.bind_eq_ok read
  replace fst := readField_eq_ok fst
  replace second := readField_eq_ok second
  replace third := readField_eq_ok third
  split at read
  · cases read
    obtain ⟨noTab, whole, -⟩ := getline_eq_some fst
    obtain ⟨noTab', whole', -⟩ := getline_eq_some second
    obtain ⟨-, -, last⟩ := getline_eq_some third
    have inner := whole' (ne_nil_of_getline third)
    have outer := whole (ne_nil_of_getline second)
    have noBreak : '\n' ∉ rest := by
      intro mem
      apply clear
      rw [outer, inner]
      simp [mem]
    refine ⟨sizeText, ?_, noTab, noTab'⟩
    rw [outer, inner, last noBreak]
  · cases read

theorem notMem_toDigits (ne : c.isDigit = false) (n : Nat) : c ∉ Nat.toDigits 10 n := by
  intro mem
  have digit := Nat.isDigit_of_mem_toDigits (by omega) (by omega) mem
  exact nomatch ne.symm.trans digit

theorem notMem_toHex (ne : c ∉ hexDigits.toList) (bytes : List UInt8) : c ∉ toHex bytes := by
  intro mem
  obtain ⟨byte, -, isIn⟩ := List.mem_flatMap.mp mem
  rcases mem_cons.mp isIn with rfl | isIn
  · exact ne (by simp)
  · rw [List.mem_singleton.mp isIn] at ne
    exact ne (by simp)

namespace Host

variable {host : Host}

theorem notMem_computeFileSha256 {c : Char} (ne : c ∉ hexDigits.toList) (content : Text) :
    c ∉ host.computeFileSha256 content :=
  notMem_toHex ne _

theorem notMem_line {path : Path} (clear : '\n' ∉ path.text) (cont : Text) :
    '\n' ∉ (host.manifestEntry path cont).line := by
  have digits := notMem_toDigits (show '\n'.isDigit = false by decide) (fileSize cont)
  have hex := host.notMem_computeFileSha256 (show '\n' ∉ hexDigits.toList by decide) cont
  simp [ManifestEntry.line, manifestEntry, clear, digits, hex]

theorem line_ne_nil (path : Path) (cont : Text) : (host.manifestEntry path cont).line ≠ [] := by
  simp [ManifestEntry.line]

/-- A line for a path is read as an entry of that path, unless a tab is in the checksum read. -/
theorem relativePath_of_readEntry {path : Path} {cont : Text} {entry : ManifestEntry}
    (clear : '\n' ∉ path.text) (read : readEntry (host.manifestEntry path cont).line = .ok entry)
    (noTab : '\t' ∉ entry.sha256Hex) : entry.relativePath = path.text := by
  obtain ⟨sizeText, parts, noTab₁, noTab₂⟩ := readEntry_eq_ok (notMem_line clear cont) read
  have digits := notMem_toDigits (show '\t'.isDigit = false by decide) (fileSize cont)
  have hex := host.notMem_computeFileSha256 (show '\t' ∉ hexDigits.toList by decide) cont
  have written : (host.manifestEntry path cont).line.splitOn '\t' = path.text.splitOn '\t' ++
      [Nat.toDigits 10 (fileSize cont), host.computeFileSha256 cont] := by
    simp only [ManifestEntry.line, manifestEntry, List.append_assoc, List.cons_append]
    rw [List.splitOn_append_cons_self, List.splitOn_append_cons_self_of_not_mem digits,
      splitOn_eq_singleton hex]
  have asRead : (host.manifestEntry path cont).line.splitOn '\t' =
      [entry.relativePath] ++ [sizeText, entry.sha256Hex] := by
    rw [parts, List.splitOn_append_cons_self_of_not_mem noTab₁,
      List.splitOn_append_cons_self_of_not_mem noTab₂, splitOn_eq_singleton noTab]
    rfl
  have pieces : path.text.splitOn '\t' = [entry.relativePath] :=
    (List.append_inj' (written.symm.trans asRead) rfl).1
  have joined : ['\t'].intercalate (path.text.splitOn '\t') = path.text :=
    List.intercalate_splitOn '\t'
  rw [← joined, pieces, List.intercalate_singleton]

end Host

theorem readEntries_eq_ok {texts : List Text} {es : List ManifestEntry}
    (read : readEntries texts = .ok es) :
    (∀ text ∈ texts, text ≠ [] → ∃ entry ∈ es, readEntry text = .ok entry) ∧
      (∀ entry ∈ es, ∃ text ∈ texts, readEntry text = .ok entry) := by
  induction texts generalizing es with
  | nil => cases read; simp
  | cons text texts ih =>
    cases text with
    | nil =>
      obtain ⟨forward, back⟩ := ih read
      refine ⟨?_, ?_⟩
      · intro text mem nonempty
        rcases mem_cons.mp mem with rfl | later
        · exact absurd rfl nonempty
        · exact forward text later nonempty
      · intro entry mem
        obtain ⟨text, among, isEntry⟩ := back entry mem
        exact ⟨text, mem_cons_of_mem _ among, isEntry⟩
    | cons c text =>
      rw [readEntries] at read
      · obtain ⟨fst, isFirst, read⟩ := Exn.bind_eq_ok read
        obtain ⟨rest, isRest, read⟩ := Exn.bind_eq_ok read
        cases read
        obtain ⟨forward, back⟩ := ih isRest
        refine ⟨?_, ?_⟩
        · intro text mem nonempty
          rcases mem_cons.mp mem with rfl | later
          · exact ⟨fst, List.mem_cons_self, isFirst⟩
          · obtain ⟨entry, among, isEntry⟩ := forward text later nonempty
            exact ⟨entry, mem_cons_of_mem _ among, isEntry⟩
        · intro entry mem
          rcases mem_cons.mp mem with rfl | later
          · exact ⟨_, List.mem_cons_self, isFirst⟩
          · obtain ⟨text, among, isEntry⟩ := back entry later
            exact ⟨text, mem_cons_of_mem _ among, isEntry⟩
      · nofun

theorem readManifest_manifestText {req : RestoreRequest} {backup : Directory}
    {createdAt : Text} {files : List ManifestEntry} (clear : '\n' ∉ createdAt)
    (hit : backup.file? manifestPath = some (manifestText createdAt files)) :
    readManifest req backup = readEntries (files.flatMap (fun file => file.line.splitOn '\n')) := by
  have header : manifestHeader.splitOn '\n' = [manifestHeader] :=
    splitOn_eq_singleton (by decide)
  have version : ("engine_version=".toList ++ engineVersion).splitOn '\n' =
      ["engine_version=".toList ++ engineVersion] :=
    splitOn_eq_singleton (by decide)
  have created : ("created_at=".toList ++ createdAt).splitOn '\n' =
      ["created_at=".toList ++ createdAt] := by
    apply splitOn_eq_singleton
    rw [List.mem_append]
    rintro (fixed | here)
    · exact absurd fixed (by decide)
    · exact clear here
  have split : lines (manifestText createdAt files) = manifestHeader ::
      ("engine_version=".toList ++ engineVersion) :: ("created_at=".toList ++ createdAt) ::
        files.flatMap (fun file => file.line.splitOn '\n') := by
    rw [manifestText, lines_flatMap]
    simp only [List.flatMap_cons, header, version, created, List.flatMap_map, List.singleton_append]
  have isVersion : "engine_version=".toList.isPrefixOf ("engine_version=".toList ++ engineVersion) := by
    decide
  have isCreated : "created_at=".toList.isPrefixOf ("created_at=".toList ++ createdAt) := by
    rw [List.isPrefixOf_iff_prefix]
    exact List.prefix_append _ _
  unfold readManifest
  rw [hit]
  simp only [split, ne_eq, not_true_eq_false, if_false, isVersion, isCreated, if_true]

end NobugDb.Backup
