import NobugDb.Storage.Proofs.WalRecords

/-!
# Recovery of a log of any records

`recover` folds the records into a list of pending blobs and two flags. Both flags are about
the whole log: a done record anywhere keeps everything after it from being written, and a
commit record anywhere lets blobs after it through. The blobs that are due are those a commit
follows that no done record follows in turn.
-/

namespace NobugDb.WalManager

/-- A record of the log. The name and the blob of a table fit their length fields. -/
inductive LogRecord where
  | blob (table : { table : Bytes × Bytes // Fits table })
  | commit (txnId : Nat)
  | done

namespace LogRecord

def bytes : LogRecord → Bytes
  | .blob table => blobRecord table.1.1 table.1.2
  | .commit txnId => commitRecord txnId
  | .done => doneRecord

/-- The record as `recover` reads it. -/
def typed : LogRecord → UInt8 × Bytes
  | .blob table => (tableBlob, blobPayload table.1.1 table.1.2)
  | .commit txnId => (WalManager.commit, leBytes 8 txnId)
  | .done => (WalManager.done, [])

/-- The table of a blob record. -/
def table? : LogRecord → Option (Bytes × Bytes)
  | .blob table => some table.1
  | _ => none

def isCommit : LogRecord → Bool
  | .commit _ => true
  | _ => false

def isDone : LogRecord → Bool
  | .done => true
  | _ => false

theorem bytes_eq (r : LogRecord) : r.bytes = record r.typed.1 r.typed.2 := by
  cases r <;> rfl

theorem typed_fits (r : LogRecord) : r.typed.2.length < 2 ^ 32 := by
  cases r with
  | blob tab => exact tab.2.2
  | commit txnId => simp [typed]
  | done => simp [typed]

end LogRecord

open LogRecord (isDone isCommit typed table?)

def logBytes (records : List LogRecord) : Bytes := records.flatMap LogRecord.bytes

/-- What is left at the end of the log of a record that was not written to its end; nothing, when
    the log ends with a whole record. -/
def Torn (tail : Bytes) : Prop :=
  ∃ type payload, payload.length < 2 ^ 32 ∧ tail <+: record type payload ∧
    tail ≠ record type payload

def blobs (records : List LogRecord) : List (Bytes × Bytes) := records.filterMap LogRecord.table?

/-- Some commit record is not followed by a done record. -/
def settles : List LogRecord → Bool
  | [] => false
  | r :: rest => (r.isCommit && !rest.any LogRecord.isDone) || settles rest

/-- The tables that are due after a crash, in log order: those whose blob is followed by a commit
    record that no done record follows. -/
def due : List LogRecord → List (Bytes × Bytes)
  | [] => []
  | r :: rest => (if settles rest then r.table?.toList else []) ++ due rest

/-! ## Reading the log -/

variable {tail : Bytes} (records : List LogRecord) (r : Recovery)

theorem readRecords_torn (torn : Torn tail) (fuel : Nat) : readRecords fuel tail = [] := by
  obtain ⟨type, payload, fits, ⟨missing, whole⟩, unequal⟩ := torn
  cases fuel with
  | zero => rfl
  | succ fuel =>
    cases tail with
    | nil => rfl
    | cons fst rest =>
      have split : fst :: (rest ++ missing) = type :: (leBytes 4 payload.length ++ payload) :=
        whole
      obtain ⟨rfl, body⟩ := List.cons.inj split
      have lengths : rest.length + missing.length = 4 + payload.length := by
        simpa using congrArg List.length body
      have short : rest.length < 4 + payload.length := by
        have nonempty : missing ≠ [] := by
          rintro rfl
          exact unequal (by rw [← whole, List.append_nil])
        have := List.length_pos_of_ne_nil nonempty
        omega
      unfold readRecords
      by_cases header : rest.length < 4
      · simp [header]
      · -- The size field is whole, so it is the payload that is too short.
        have size : rest.take 4 = leBytes 4 payload.length := by
          have := congrArg (List.take 4) body
          rwa [List.take_append_of_le_length (by omega), List.take_append_of_le_length (by simp),
            List.take_of_length_le (l := leBytes 4 _) (by simp)] at this
        have value : leNat (rest.take 4) = payload.length := by
          rw [size]
          exact leNat_leBytes 4 _ (by simpa using fits)
        simp only [value]
        rw [if_pos (.inr (by rw [List.length_drop]; omega))]

theorem readRecords_log (torn : Torn tail) (fuel : Nat) (enough : records.length ≤ fuel) :
    readRecords fuel (logBytes records ++ tail) = records.map typed := by
  induction records generalizing fuel with
  | nil => exact readRecords_torn torn fuel
  | cons r records ih =>
    obtain _ | fuel := fuel
    · simp at enough
    · have rest := ih fuel (by simpa using enough)
      have log : logBytes (r :: records) ++ tail =
          record r.typed.1 r.typed.2 ++ (logBytes records ++ tail) := by
        rw [logBytes, List.flatMap_cons, r.bytes_eq, List.append_assoc]
        rfl
      rw [log, readRecords_record fuel _ _ _ r.typed_fits, rest]
      rfl

theorem length_le_logBytes : records.length ≤ (logBytes records).length := by
  have := length_le_flatMap_record (records.map typed)
  rw [List.length_map, List.flatMap_map] at this
  have eq : logBytes records = records.flatMap (fun r => record r.typed.1 r.typed.2) :=
    List.flatMap_congr (fun r _ => r.bytes_eq)
  rwa [eq]

/-! ## The fold -/

theorem take_typed (rec : LogRecord) :
    r.take rec.typed =
      if rec.isDone then { pending := [], sawCommit := false, sawDone := true }
      else
        { r with
          pending := r.pending ++ rec.table?.toList
          sawCommit := r.sawCommit || rec.isCommit } := by
  cases rec with
  | blob tab =>
    rw [typed, take_blob r tab.1 tab.2]
    simp [isDone, isCommit, table?]
  | commit txnId =>
    simp [typed, Recovery.take, isDone, isCommit, table?,
      tableBlob, commit]
  | done =>
    simp [typed, Recovery.take, isDone, tableBlob, commit, done]

theorem foldl_sawDone :
    ((records.map typed).foldl Recovery.take r).sawDone =
      (r.sawDone || records.any isDone) := by
  induction records generalizing r with
  | nil => simp
  | cons rec records ih =>
    rw [List.map_cons, List.foldl_cons, ih, take_typed, List.any_cons]
    cases rec.isDone <;> simp

/-- Without a done record the blobs pile up, and any commit record counts for all of them. -/
theorem foldl_pending (undone : records.any isDone = false) :
    (records.map typed).foldl Recovery.take r =
      { r with
        pending := r.pending ++ blobs records
        sawCommit := r.sawCommit || records.any isCommit } := by
  induction records generalizing r with
  | nil => simp [blobs]
  | cons rec records ih =>
    rw [List.any_cons, Bool.or_eq_false_iff] at undone
    rw [List.map_cons, List.foldl_cons, take_typed, ih _ undone.2]
    have tables : blobs (rec :: records) = rec.table?.toList ++ blobs records := by
      unfold blobs
      cases tab : rec.table? <;> simp [tab]
    simp [undone.1, tables, Bool.or_assoc]

/-- What `recover` writes: nothing when the log holds a done record, and otherwise every blob of a
    log with a commit record. -/
theorem recovered_log (torn : Torn tail) :
    recovered (logBytes records ++ tail) =
      if !records.any isDone && records.any isCommit then blobs records
      else [] := by
  have enough : records.length ≤ (logBytes records ++ tail).length := by
    have := length_le_logBytes records
    rw [List.length_append]
    omega
  unfold recovered
  rw [readRecords_log records torn _ enough]
  cases undone : records.any isDone with
  | true => simp [foldl_sawDone, undone]
  | false => simp [foldl_pending records {} undone]

/-! ## What is due -/

/-- A property of what stands before and after a commit record holds at each of them. -/
def AtCommits (P : List LogRecord → List LogRecord → Prop) (records : List LogRecord) : Prop :=
  ∀ before txnId after, records = before ++ .commit txnId :: after → P before after

variable {P : List LogRecord → List LogRecord → Prop}

theorem atCommits_nil : AtCommits P [] := by
  intro before txnId after split
  simp at split

theorem atCommits_cons (r : LogRecord) (rest : List LogRecord) :
    AtCommits P (r :: rest) ↔
      (r.isCommit = true → P [] rest) ∧ AtCommits (fun before => P (r :: before)) rest := by
  constructor
  · intro all
    refine ⟨fun isCommit => ?_, fun before txnId after split => ?_⟩
    · cases r with
      | commit txnId => exact all [] txnId rest rfl
      | _ => cases isCommit
    · exact all (r :: before) txnId after (by rw [split]; rfl)
  · rintro ⟨fst, later⟩ before txnId after split
    cases before with
    | nil =>
      obtain ⟨rfl, rfl⟩ := List.cons.inj split
      exact fst rfl
    | cons _ before =>
      obtain ⟨rfl, rfl⟩ := List.cons.inj split
      exact later before txnId after rfl

theorem settles_eq_false_iff :
    settles records = false ↔
      AtCommits (fun _ after => after.any isDone = true) records := by
  induction records with
  | nil => exact ⟨fun _ => atCommits_nil, fun _ => rfl⟩
  | cons r rest ih =>
    rw [atCommits_cons, ← ih, settles, Bool.or_eq_false_iff, Bool.and_eq_false_iff]
    cases r.isCommit <;> simp

@[simp] theorem blobs_nil : blobs [] = [] := rfl

theorem blobs_cons (r : LogRecord) (rest : List LogRecord) :
    blobs (r :: rest) = r.table?.toList ++ blobs rest := by
  unfold blobs
  cases tab : r.table? <;> simp [tab]

/-- Nothing is due when a done record follows each commit record that has a blob before it. -/
theorem due_eq_nil_iff :
    due records = [] ↔
      AtCommits (fun before after => after.any isDone = true ∨ blobs before = [])
        records := by
  induction records with
  | nil => exact ⟨fun _ => atCommits_nil, fun _ => rfl⟩
  | cons r rest ih =>
    rw [due, List.append_eq_nil_iff, ih, atCommits_cons]
    cases tab : r.table? with
    | none =>
      have eq : ∀ before, blobs (r :: before) = blobs before := by
        intro before
        rw [blobs_cons, tab]
        rfl
      simp only [eq, Option.toList_none, ite_self, blobs_nil, or_true, implies_true, true_and]
    | some t =>
      have pending : ∀ before, blobs (r :: before) ≠ [] := by
        intro before
        rw [blobs_cons, tab]
        simp
      -- Behind a blob every commit record has to be followed by a done record.
      have settled := settles_eq_false_iff rest
      simp only [pending, or_false, blobs_nil, or_true, implies_true, true_and]
      rw [← settled]
      refine ⟨fun h => by simpa using h.1, fun h => ⟨by simp [h], ?_⟩⟩
      intro before txnId after split
      exact .inl (settled.mp h before txnId after split)

theorem settles_eq_any {records : List LogRecord} (undone : records.any isDone = false) :
    settles records = records.any isCommit := by
  induction records with
  | nil => rfl
  | cons r rest ih =>
    rw [List.any_cons, Bool.or_eq_false_iff] at undone
    simp [settles, ih undone.2, undone.2]

theorem length_due_le : (due records).length ≤ (blobs records).length := by
  induction records with
  | nil => simp [due]
  | cons r rest ih =>
    rw [due, blobs_cons, List.length_append, List.length_append]
    split
    · omega
    · simp
      omega

/-- Without done records all blobs are due when none comes behind the last commit record. -/
theorem due_eq_blobs_iff {records : List LogRecord} (undone : records.any isDone = false) :
    due records = blobs records ↔
      (blobs records = [] ∨ records.any isCommit = true) ∧
      AtCommits (fun _ after => blobs after = [] ∨ after.any isCommit = true) records := by
  induction records with
  | nil => exact ⟨fun _ => ⟨.inl rfl, atCommits_nil⟩, fun _ => rfl⟩
  | cons r rest ih =>
    have undoneRest : rest.any isDone = false := by
      rw [List.any_cons, Bool.or_eq_false_iff] at undone
      exact undone.2
    have ih := ih undoneRest
    rw [atCommits_cons, due, blobs_cons, settles_eq_any undoneRest]
    cases r with
    | blob tab =>
      simp only [table?, Option.toList_some, isCommit, List.any_cons]
      cases commits : rest.any isCommit with
      | true => simpa [commits] using ih
      | false =>
        have short := length_due_le rest
        have unequal : due rest ≠ tab.1 :: blobs rest := by
          intro eq
          rw [eq] at short
          simp at short
        simpa using unequal
    | commit txnId => simpa [table?, isCommit] using ih
    | done => simp [isDone] at undone

/-- A commit record that a blob precedes is followed by a done record if there is any in the log,
    and without one no blob stands behind the last commit record. -/
def OneGroup (records : List LogRecord) : Prop :=
  AtCommits (fun before after =>
    if records.any LogRecord.isDone then after.any LogRecord.isDone = true ∨ blobs before = []
    else blobs after = [] ∨ after.any LogRecord.isCommit = true) records

/-- `recover` writes the blobs that are due exactly for these logs. -/
theorem recovered_eq_due_iff (records : List LogRecord) (tail : Bytes) (torn : Torn tail) :
    recovered (logBytes records ++ tail) = due records ↔ OneGroup records := by
  rw [recovered_log records torn]
  unfold OneGroup
  cases undone : records.any LogRecord.isDone with
  | true =>
    simp only [Bool.not_true, Bool.false_and, Bool.false_eq_true, if_false, if_true]
    rw [eq_comm]
    exact due_eq_nil_iff records
  | false =>
    cases commits : records.any LogRecord.isCommit with
    | true =>
      have whole := due_eq_blobs_iff undone
      simp only [commits, or_true, true_and] at whole
      simp only [Bool.not_false, Bool.and_self, Bool.false_eq_true, if_false, if_true]
      rw [eq_comm]
      exact whole
    | false =>
      have vacuous : ∀ {P : List LogRecord → List LogRecord → Prop}, AtCommits P records := by
        intro P before txnId after split
        rw [split] at commits
        simp [LogRecord.isCommit] at commits
      have nothing : due records = [] := (due_eq_nil_iff records).mpr vacuous
      simp [nothing, vacuous]

/-- The blob of a table with a one-byte name and a one-byte image. -/
def smallBlob (name image : UInt8) : LogRecord :=
  .blob ⟨([name], [image]), by simp [Fits, blobPayload]⟩

/-- A group, and the first byte of a second one. -/
theorem recovered_group_with_torn_tail :
    recovered (logBytes [smallBlob 97 1, .commit 0] ++ [tableBlob]) =
        due [smallBlob 97 1, .commit 0] ↔
      OneGroup [smallBlob 97 1, .commit 0] :=
  recovered_eq_due_iff _ _ ⟨tableBlob, [], by simp, ⟨leBytes 4 0, rfl⟩, by decide⟩

/-- A group that is done, and a second one that is committed: the done record of the first keeps
    the second from being written. -/
theorem recovered_forgets_second_group :
    recovered (logBytes [smallBlob 97 1, .commit 0, .done, smallBlob 98 2, .commit 1]) ≠
      due [smallBlob 97 1, .commit 0, .done, smallBlob 98 2, .commit 1] := by
  decide +kernel

end NobugDb.WalManager
