import NobugDb.Misc.DirectoryTree
import NobugDb.Utils.Exceptions

/-!
# Backup and restore

`BackupService` (`include/storage/backup_service.h`, `src/storage/backup_service.cc`): a
checkpoint, a copy of the data directory and a manifest with a checksum for each file; a restore
reads the manifest, verifies the files it lists and copies them. The data directory, the output
directory and the target of a restore are three trees: none of them lies in another. A text and
the content of a file are lists of characters, one for each byte.
-/

namespace NobugDb.Backup

open Misc (Tree Node)

/-- A `std::string` or the bytes of a file. -/
abbrev Text := List Char

/-- Whether a text can be the name of a directory entry. -/
def isName (text : Text) : Bool :=
  text != [] && text != ['.'] && text != ['.', '.'] && !text.contains '/'

/-- The name of a directory entry. -/
structure Name where
  text : Text
  proper : isName text = true
  deriving DecidableEq

/-- The name with a given text. -/
def Name.of? (text : Text) : Option Name :=
  if proper : isName text = true then some ⟨text, proper⟩ else none

/-- A path from the directory it is relative to. -/
abbrev Path := List Name

/-- `generic_string()` of a relative path. -/
def Path.text (path : Path) : Text := ['/'].intercalate (path.map Name.text)

/-- The entry that a relative path text leads to: repeated slashes and `.` are passed over, except
    at the end, where they ask for a directory. -/
def resolve (text : Text) : Option Path := do
  let pieces := text.splitOn '/'
  let name ← Name.of? (pieces.getLastD [])
  let parents ← (pieces.dropLast.filter (fun piece => piece != [] && piece != ['.'])).mapM Name.of?
  pure (parents ++ [name])

/-- The files and directories of a directory. -/
abbrev Directory := Tree Name Text

/-- `kManifestFileName`. -/
def manifestFileName : Text := "backup_manifest".toList

/-- `kManifestHeader`. -/
def manifestHeader : Text := "nobugdb-backup-manifest-v1".toList

/-- `kEngineVersion` (`engine_version.h:6`). -/
def engineVersion : Text := "0.1.0".toList

/-- `kWalStagePrefix`. -/
def walStagePrefix : Text := ".wal_stage_".toList

/-- The manifest's place in a backup. -/
def manifestPath : Path := [⟨manifestFileName, by decide⟩]

structure ManifestEntry where
  relativePath : Text
  size : Nat
  sha256Hex : Text
  deriving DecidableEq

/-- `kHexDigits`. -/
def hexDigits : Vector Char 16 :=
  #v['0', '1', '2', '3', '4', '5', '6', '7', '8', '9', 'a', 'b', 'c', 'd', 'e', 'f']

/-- `to_hex` (`sha256.cc`). -/
def toHex (bytes : List UInt8) : Text :=
  bytes.flatMap (fun byte =>
    [hexDigits[byte.toNat / 16 % 16], hexDigits[byte.toNat % 16]])

/-- The fields of `std::tm` that the timestamp prints. -/
structure UtcTime where
  year : Int
  month : Nat
  day : Nat
  hour : Nat
  minute : Nat
  second : Nat

/-- What the service takes from its surroundings. -/
structure Host where
  /-- `runCheckpoint`: opens the database of a data directory and checkpoints it. -/
  runCheckpoint : Option Directory → Except Exn (Option Directory)
  /-- The components of `weakly_canonical`, or an error. -/
  weaklyCanonical : Text → Option (List Text)
  /-- The order in which a directory iterator visits entries. -/
  iterate : List (Path × Node Text) → List (Path × Node Text)
  iterate_perm : ∀ entries, (iterate entries).Perm entries
  /-- The 32 bytes of a digest. -/
  sha256 : Text → Vector UInt8 32
  /-- The clock. -/
  now : UtcTime

structure BackupRequest where
  dataDirectory : Text
  outputDirectory : Text

structure RestoreRequest where
  backupDirectory : Text
  dataDirectory : Text
  force : Bool := false

/-- A `StorageException`. -/
def storageError {α : Type} (message : Text) : Except Exn α :=
  .error ⟨.storage, String.ofList message⟩

/-- A file system operation that throws when it fails. -/
def orThrow {α : Type} : Option α → Except Exn α
  | some x => .ok x
  | none => .error ⟨.filesystem, "filesystem error"⟩

/-- `isRelativePathSafe` (`backup_service.cc:28-34`). -/
def isRelativePathSafe (relativePath : Text) : Bool :=
  !(relativePath.isEmpty || ['/'].isPrefixOf relativePath || decide (['.', '.'] <:+: relativePath))

/-- `fs::path(directory) / name`. -/
def joinPath (directory name : Text) : Text :=
  if directory.getLast? = some '/' then directory ++ name else directory ++ '/' :: name

/-- `hasWalStagingFiles` (`backup_service.cc:242-257`). -/
def hasWalStagingFiles : Option Directory → Bool
  | none => false
  | some data => data.entries.any (fun
      | ([name], .file _) => walStagePrefix.isPrefixOf name.text
      | _ => false)

/-- `isDirectoryNonEmpty` (`backup_service.cc:233-240`). -/
def isDirectoryNonEmpty : Option Directory → Bool
  | none => false
  | some directory => !directory.entries.isEmpty

/-- A number of two places. -/
def twoDigits (n : Nat) : Text := if n < 10 then '0' :: Nat.toDigits 10 n else Nat.toDigits 10 n

/-- The text of `%Y-%m-%dT%H:%M:%SZ`. -/
def UtcTime.text (t : UtcTime) : Text :=
  (if t.year < 0 then ['-'] else []) ++ Nat.toDigits 10 t.year.natAbs ++ ['-'] ++
    twoDigits t.month ++ ['-'] ++ twoDigits t.day ++ ['T'] ++ twoDigits t.hour ++ [':'] ++
    twoDigits t.minute ++ [':'] ++ twoDigits t.second ++ ['Z']

/-- `std::stoull` in base ten. -/
def stoull (text : Text) : Except Exn Nat :=
  let body := text.dropWhile (fun c => c == ' ' || ('\t' ≤ c && c ≤ '\r'))
  let negative := ['-'].isPrefixOf body
  let digits := (if negative || ['+'].isPrefixOf body then body.tail else body).takeWhile Char.isDigit
  if digits.isEmpty then .error ⟨.invalidArgument, "stoull"⟩
  else
    let n := Nat.ofDigitChars 10 digits 0
    if 2 ^ 64 ≤ n then .error ⟨.outOfRange, "stoull"⟩
    else .ok (if negative then (2 ^ 64 - n) % 2 ^ 64 else n)

/-- `std::getline`: what stands before the separator, and what is left after it. Nothing can be read
    at the end of the stream. -/
def getline (separator : Char) (stream : Text) : Option (Text × Text) :=
  if stream.isEmpty then none
  else some (stream.takeWhile (· != separator), (stream.dropWhile (· != separator)).tail)

/-- The lines that successive calls of `std::getline` read. -/
def lines (text : Text) : List Text :=
  let pieces := text.splitOn '\n'
  if pieces.getLastD [] = [] then pieces.dropLast else pieces

/-- A field of a line of the manifest: the line is refused where nothing can be read. -/
def readField (line : Text) (separator : Char) (stream : Text) : Except Exn (Text × Text) :=
  match getline separator stream with
  | some read => .ok read
  | none => storageError ("invalid backup manifest entry: ".toList ++ line)

/-- One line of the manifest (`backup_service.cc:182-194`). -/
def readEntry (line : Text) : Except Exn ManifestEntry := do
  let (relativePath, stream) ← readField line '\t' line
  let (sizeText, stream) ← readField line '\t' stream
  let (sha256Hex, _) ← readField line '\n' stream
  let size ← stoull sizeText
  if isRelativePathSafe relativePath then
    pure { relativePath, size, sha256Hex }
  else
    storageError ("unsafe path in manifest: ".toList ++ relativePath)

/-- The entries of the lines after the first three (`backup_service.cc:178-195`). -/
def readEntries : List Text → Except Exn (List ManifestEntry)
  | [] => .ok []
  | [] :: rest => readEntries rest
  | line :: rest => do
    let entry ← readEntry line
    let entries ← readEntries rest
    pure (entry :: entries)

/-- The files of `readManifest` (`backup_service.cc:158-197`). -/
def readManifest (request : RestoreRequest) (backup : Directory) :
    Except Exn (List ManifestEntry) :=
  match backup.file? manifestPath with
  | none => storageError ("missing backup manifest: ".toList ++
      joinPath request.backupDirectory manifestFileName)
  | some text =>
    match lines text with
    | header :: rest =>
      if header ≠ manifestHeader then storageError "invalid backup manifest header".toList
      else match rest with
      | version :: rest =>
        if "engine_version=".toList.isPrefixOf version then
          match rest with
          | created :: rest =>
            if "created_at=".toList.isPrefixOf created then readEntries rest
            else storageError "invalid backup manifest created_at".toList
          | [] => storageError "invalid backup manifest created_at".toList
        else storageError "invalid backup manifest engine_version".toList
      | [] => storageError "invalid backup manifest engine_version".toList
    | [] => storageError "invalid backup manifest header".toList

/-- The line that `writeManifest` writes for a file. -/
def ManifestEntry.line (entry : ManifestEntry) : Text :=
  entry.relativePath ++ '\t' :: Nat.toDigits 10 entry.size ++ '\t' :: entry.sha256Hex

/-- The text that `writeManifest` writes (`backup_service.cc:149-155`). -/
def manifestText (createdAt : Text) (files : List ManifestEntry) : Text :=
  (manifestHeader :: ("engine_version=".toList ++ engineVersion) ::
    ("created_at=".toList ++ createdAt) :: files.map ManifestEntry.line).flatMap (· ++ ['\n'])

def fileSize (content : Text) : Nat := content.length % 2 ^ 64

/-- One round of the loop of `copyDataDirectory`. -/
def copyEntry (dest : Directory) : Path × Node Text → Except Exn Directory
  | (path, .directory) => orThrow (dest.createDirectories path)
  | (path, .file content) => do
    let dest ← orThrow (dest.createDirectories path.dropLast)
    orThrow (dest.writeFile path content)

/-- `writeManifest` (`backup_service.cc:142-156`). -/
def writeManifest (request : BackupRequest) (output : Directory) (text : Text) :
    Except Exn Directory :=
  match output.writeFile manifestPath text with
  | some written => .ok written
  | none => storageError ("cannot write manifest: ".toList ++
      joinPath request.outputDirectory manifestFileName)

/-- One round of the loop of `replaceDataDirectory`. -/
def restoreEntry (backup target : Directory) (entry : ManifestEntry) : Except Exn Directory := do
  let path ← orThrow (resolve entry.relativePath)
  let content ← orThrow (backup.file? path)
  let target ← orThrow (target.createDirectories path.dropLast)
  orThrow (target.writeFile path content)

/-- `replaceDataDirectory` (`backup_service.cc:217-231`): the target is emptied before. -/
def replaceDataDirectory (backup : Directory) (files : List ManifestEntry) : Except Exn Directory :=
  files.foldlM (restoreEntry backup) Tree.empty

namespace Host

variable (host : Host)

/-- `computeFileSha256` (`backup_service.cc:259-262`). -/
def computeFileSha256 (content : Text) : Text := toHex (host.sha256 content).toList

/-- `refuseIfOutputInsideData` (`backup_service.cc:80-97`). `std::mismatch` reads past the output
    path where that is a proper beginning of the data path. -/
def refuseIfOutputInsideData (request : BackupRequest) : Except Exn Unit :=
  match host.weaklyCanonical request.dataDirectory, host.weaklyCanonical request.outputDirectory with
  | some dataPath, some outputPath =>
    if dataPath.isPrefixOf outputPath then
      storageError "output directory must not be inside data directory".toList
    else if outputPath.isPrefixOf dataPath then
      .error ⟨.undefined, "mismatch past the end of the output path"⟩
    else .ok ()
  | _, _ => .ok ()

/-- The loop of `copyDataDirectory` (`backup_service.cc:107-117`). -/
def copyDataDirectory (source dest : Directory) : Except Exn Directory :=
  (host.iterate source.entries).foldlM copyEntry dest

/-- The manifest entry of a file. -/
def manifestEntry (path : Path) (content : Text) : ManifestEntry where
  relativePath := path.text
  size := fileSize content
  sha256Hex := host.computeFileSha256 content

/-- `buildManifest` (`backup_service.cc:120-140`). -/
def buildManifest (directory : Directory) : List ManifestEntry :=
  (host.iterate directory.entries).filterMap (fun
    | (path, .file content) =>
      if path.text = manifestFileName then none else some (host.manifestEntry path content)
    | (_, .directory) => none)

/-- `formatTimestampUtc` (`backup_service.cc:264-279`). -/
def formatTimestampUtc : Except Exn Text :=
  let text := host.now.text
  if text.length < 32 then .ok text else storageError "failed to format backup timestamp".toList

/-- `executeBackup` (`backup_service.cc:38-50`): the data directory after its checkpoint and the
    output directory. -/
def executeBackup (request : BackupRequest) (data output : Option Directory) :
    Except Exn (Directory × Directory) := do
  if request.dataDirectory.isEmpty || request.outputDirectory.isEmpty then
    storageError "backup requires --data-dir and --output-dir".toList
  if hasWalStagingFiles data then
    storageError "WAL staging files present; stop the server and retry backup".toList
  host.refuseIfOutputInsideData request
  match ← host.runCheckpoint data with
  | none => storageError ("data directory does not exist: ".toList ++ request.dataDirectory)
  | some data => do
    let output ← host.copyDataDirectory data (output.getD Tree.empty)
    let createdAt ← host.formatTimestampUtc
    let output ← writeManifest request output
      (manifestText createdAt (host.buildManifest output))
    pure (data, output)

/-- The check of one entry in `verifyChecksums` (`backup_service.cc:201-214`). -/
def verifyChecksum (backup : Directory) (entry : ManifestEntry) : Except Exn Unit :=
  match (resolve entry.relativePath).bind backup.file? with
  | none => storageError ("missing backup file: ".toList ++ entry.relativePath)
  | some content =>
    if fileSize content ≠ entry.size then
      storageError ("size mismatch for ".toList ++ entry.relativePath)
    else if host.computeFileSha256 content ≠ entry.sha256Hex then
      storageError ("checksum mismatch for ".toList ++ entry.relativePath)
    else .ok ()

/-- `executeRestore` (`backup_service.cc:52-64`): the data directory it leaves. -/
def executeRestore (request : RestoreRequest) (backup : Directory) (target : Option Directory) :
    Except Exn Directory := do
  if request.backupDirectory.isEmpty || request.dataDirectory.isEmpty then
    storageError "restore requires --backup-dir and --data-dir".toList
  let files ← readManifest request backup
  files.forM (host.verifyChecksum backup)
  if isDirectoryNonEmpty target && !request.force then
    storageError "data directory is not empty; pass --force to replace".toList
  replaceDataDirectory backup files

end Host

end NobugDb.Backup
