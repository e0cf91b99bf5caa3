import NobugDb.Executor.Proofs.RowWrites

/-!
# The loops of INSERT, UPDATE and DELETE

The executors handle their rows one after another, and each row with its referential actions,
before the next one is checked. A loop that fails leaves the rows as they were when no turn has
changed any, and only then if what a turn changes stays changed.
-/

namespace NobugDb

open Body (all_pure runs_bind_ok runs_pure_iff)

namespace Executor

/-! ## The turns of the loops -/

/-- A row write in a loop: the result that ends the statement, or the rows counted. -/
def turn (text : String) (body : Body (Option QueryResult)) : Body (QueryResult ⊕ Nat) := do
  match ← orFail text body with
  | some result => return .inl result
  | none => return .inr 1

def insertStep (env : Env) (stmt : InsertStatement) (t : Table) (exprs : List (Expr Empty)) :
    Body (QueryResult ⊕ Nat) :=
  turn "Insert failed: " (insertOne env stmt t exprs)

def updateStep (env : Env) (stmt : UpdateStatement) (t : Table) (i : Nat) :
    Body (QueryResult ⊕ Nat) := do
  match ← Body.getTable stmt.table with
  | none => throw ⟨.notFound, "Table '" ++ stmt.table ++ "' not found"⟩
  | some now =>
    if now.rowCount ≤ i then return .inr 0
    else
      let ev := t.dmlEvaluator env
      let current ← (now.getRow i : Except Exn Row)
      if ← (Table.accepts ev stmt.whereCondition current : Except Exn Bool) then
        let new ← (t.assigned ev current stmt.setClauses current : Except Exn Row)
        turn "Update failed: " (updateOne env stmt t i current new)
      else return .inr 0

def deleteStep (env : Env) (stmt : DeleteStatement) (t : Table) (inTx : Bool) (i : Nat) :
    Body (QueryResult ⊕ Nat) :=
  turn "Delete failed: " (deleteOne env stmt t inTx i)

/-- The loop goes on after a turn, or ends with its result. -/
def goOn (loop : Nat → Body QueryResult) (count : Nat) : QueryResult ⊕ Nat → Body QueryResult
  | .inl result => pure result
  | .inr counted => loop (count + counted)

theorem insertRows_cons (env : Env) (stmt : InsertStatement) (t : Table)
    (exprs : List (Expr Empty)) (rest : List (List (Expr Empty))) (count : Nat) :
    insertRows env stmt t (exprs :: rest) count =
      insertStep env stmt t exprs >>= goOn (insertRows env stmt t rest) count := by
  rw [insertRows, insertStep, turn, bind_assoc]
  refine bind_congr (fun result => ?_)
  cases result <;> rfl

theorem deleteRows_cons (env : Env) (stmt : DeleteStatement) (t : Table) (inTx : Bool) (i : Nat)
    (rest : List Nat) (count : Nat) :
    deleteRows env stmt t inTx (i :: rest) count =
      deleteStep env stmt t inTx i >>= goOn (deleteRows env stmt t inTx rest) count := by
  rw [deleteRows, deleteStep, turn, bind_assoc]
  refine bind_congr (fun result => ?_)
  cases result <;> rfl

theorem updateRows_cons (env : Env) (stmt : UpdateStatement) (t : Table) (i : Nat)
    (rest : List Nat) (count : Nat) :
    updateRows env stmt t (i :: rest) count =
      updateStep env stmt t i >>= goOn (updateRows env stmt t rest) count := by
  rw [updateRows, updateStep, bind_assoc]
  refine bind_congr (fun hit => ?_)
  cases hit with
  | none => rfl
  | some now =>
    dsimp only
    split
    · rfl
    · rw [bind_assoc]
      refine bind_congr (fun cur => ?_)
      rw [bind_assoc]
      refine bind_congr (fun acc => ?_)
      cases acc with
      | false => rfl
      | true =>
        rw [if_pos rfl, if_pos rfl, bind_assoc]
        refine bind_congr (fun new => ?_)
        rw [turn, bind_assoc]
        refine bind_congr (fun result => ?_)
        cases result <;> rfl

/-! ## Loops that fail -/

/-- The statement returned an error, or an exception left the executor. -/
def Failed : Except Exn QueryResult → Prop
  | .error _ => True
  | .ok result => result.success = false

section Loop

variable {α : Type} (fns : Functions) (s : Nat) (step : α → Body (QueryResult ⊕ Nat))

/-- A turn of the loop handles `a`. -/
def Handles (db : Database) (a : α) (db' : Database) : Prop :=
  ∃ counted, (step a).Runs fns s db db' (.ok (.inr counted))

/-- A turn of the loop fails at `a`. -/
def FailsAt (db : Database) (a : α) (db' : Database) : Prop :=
  ∃ r, (step a).Runs fns s db db' r ∧ ∀ counted, r ≠ .ok (.inr counted)

/-- All of them are handled, one after another. -/
def AllHandled : Database → List α → Prop
  | _, [] => True
  | db, a :: rest => ∃ db₁, Handles fns s step db a db₁ ∧ AllHandled db₁ rest

/-- The first turn that changes rows is not followed by one that fails, and does not fail itself. -/
def Clean : Database → List α → Prop
  | _, [] => True
  | db, a :: rest =>
    (∀ db₁, Handles fns s step db a db₁ →
      (db.SameRows db₁ ∧ Clean db₁ rest) ∨ AllHandled fns s step db₁ rest) ∧
    ∀ db₁, FailsAt fns s step db a db₁ → db.SameRows db₁

/-- The loop that takes these turns. -/
structure IsLoop (loop : List α → Nat → Body QueryResult) : Prop where
  nil : ∀ count, ∃ result : QueryResult, loop [] count = pure result ∧ result.success = true
  cons : ∀ a rest count, loop (a :: rest) count = step a >>= goOn (loop rest) count
  fails : ∀ db a db' result, (step a).Runs fns s db db' (.ok (.inl result)) → result.success = false

end Loop

section Loop

variable {α : Type} {fns : Functions} {s : Nat} {step : α → Body (QueryResult ⊕ Nat)}
  {loop : List α → Nat → Body QueryResult} {db db' : Database} {a : α} {rest rows : List α}
  {count : Nat} {out : Except Exn QueryResult}

variable {other : Database}

theorem Handles.unique (fst : Handles fns s step db a db') (snd : Handles fns s step db a other) :
    db' = other := by
  obtain ⟨_, fst⟩ := fst
  obtain ⟨_, snd⟩ := snd
  exact (fst.unique snd).1

theorem FailsAt.unique (fst : FailsAt fns s step db a db') (snd : FailsAt fns s step db a other) :
    db' = other := by
  obtain ⟨_, fst, -⟩ := fst
  obtain ⟨_, snd, -⟩ := snd
  exact (fst.unique snd).1

theorem not_handles_of_failsAt (fails : FailsAt fns s step db a db') :
    ¬ Handles fns s step db a other := by
  obtain ⟨r, runs, notHandled⟩ := fails
  rintro ⟨counted, handled⟩
  exact notHandled counted (runs.unique handled).2

variable (isLoop : IsLoop fns s step loop)
include isLoop

theorem IsLoop.runs_cons (runs : (loop (a :: rest) count).Runs fns s db db' out) :
    (∃ db₁ count', Handles fns s step db a db₁ ∧ (loop rest count').Runs fns s db₁ db' out) ∨
      (FailsAt fns s step db a db' ∧ Failed out) := by
  rw [isLoop.cons, Body.runs_bind_iff] at runs
  rcases runs with ⟨db₁, result | counted, turn, next⟩ | ⟨e, turn, rfl⟩
  · obtain ⟨rfl, rfl⟩ := runs_pure_iff.mp next
    exact .inr ⟨⟨_, turn, nofun⟩, isLoop.fails _ _ _ _ turn⟩
  · exact .inl ⟨db₁, count + counted, ⟨counted, turn⟩, next⟩
  · exact .inr ⟨⟨_, turn, nofun⟩, trivial⟩

theorem IsLoop.allHandled_iff (runs : (loop rows count).Runs fns s db db' out) :
    AllHandled fns s step db rows ↔ ¬ Failed out := by
  induction rows generalizing db count with
  | nil =>
    obtain ⟨result, ends, success⟩ := isLoop.nil count
    rw [ends, runs_pure_iff] at runs
    simp [AllHandled, runs.2, Failed, success]
  | cons a rest ih =>
    rcases isLoop.runs_cons runs with ⟨db₁, count', handled, next⟩ | ⟨fails, fail⟩
    · refine Iff.trans ⟨?_, ?_⟩ (ih next)
      · rintro ⟨db₂, again, more⟩
        rw [handled.unique again]
        exact more
      · exact fun more => ⟨db₁, handled, more⟩
    · refine ⟨?_, fun h => absurd fail h⟩
      rintro ⟨db₁, handled, -⟩
      exact absurd handled (not_handles_of_failsAt fails)

theorem IsLoop.sameRows_of_clean
    (runs : (loop rows count).Runs fns s db db' out) (clean : Clean fns s step db rows)
    (fail : Failed out) : db.SameRows db' := by
  induction rows generalizing db count with
  | nil =>
    obtain ⟨result, ends, -⟩ := isLoop.nil count
    rw [ends, runs_pure_iff] at runs
    rw [runs.1]
    exact .refl db
  | cons a rest ih =>
    rcases isLoop.runs_cons runs with ⟨db₁, count', handled, next⟩ | ⟨fails, -⟩
    · rcases clean.1 db₁ handled with ⟨eq, cleanRest⟩ | all
      · exact eq.trans (ih next cleanRest)
      · exact absurd fail ((isLoop.allHandled_iff next).mp all)
    · exact clean.2 db' fails

/-- When what a turn has changed stays changed, only a clean loop leaves the rows as they were. -/
theorem IsLoop.clean_of_sameRows {I : Database → List α → Prop}
    (keeps : ∀ db a rest db₁, I db (a :: rest) → Handles fns s step db a db₁ → I db₁ rest)
    (stays : ∀ db a rest db₁ count db' out, I db (a :: rest) → Handles fns s step db a db₁ →
      ¬ db.SameRows db₁ → (loop rest count).Runs fns s db₁ db' out → ¬ db.SameRows db')
    (start : I db rows) (runs : (loop rows count).Runs fns s db db' out)
    (eq : Failed out → db.SameRows db') : Clean fns s step db rows := by
  induction rows generalizing db count with
  | nil => trivial
  | cons a rest ih =>
    rcases isLoop.runs_cons runs with ⟨db₁, count', handled, next⟩ | ⟨fails, fail⟩
    · refine ⟨fun db₂ again => ?_, fun db₂ fails => absurd handled (not_handles_of_failsAt fails)⟩
      rw [← handled.unique again]
      by_cases unchanged : db.SameRows db₁
      · refine .inl ⟨unchanged, ih (keeps db a rest db₁ start handled) next (fun fail => ?_)⟩
        exact unchanged.symm.trans (eq fail)
      · refine .inr ((isLoop.allHandled_iff next).mpr (fun fail => ?_))
        exact stays db a rest db₁ count' db' out start handled unchanged next (eq fail)
    · refine ⟨fun db₁ handled => absurd handled (not_handles_of_failsAt fails), fun db₁ again => ?_⟩
      rw [← fails.unique again]
      exact eq fail

end Loop

/-! ## Turns without triggers -/

section Turns

variable {env : Env} {fns : Functions} {s : Nat} {db db' : Database}

variable {text : String} {body : Body (Option QueryResult)} {result : QueryResult}
  {event : TriggerEvent} {name : String} {old new : Option Row}

theorem runs_orFail_none_iff :
    (orFail text body).Runs fns s db db' (.ok none) ↔ body.Runs fns s db db' (.ok none) := by
  unfold orFail
  rw [Body.runs_tryCatch_iff]
  constructor
  · rintro (⟨result, runs, eq⟩ | ⟨db₁, e, -, handled⟩)
    · rwa [← Except.ok.inj eq] at runs
    · cases (runs_pure_iff.mp handled).2
  · exact fun runs => .inl ⟨none, runs, rfl⟩

theorem failed_of_orFail
    (fails : ∀ db db' result, body.Runs fns s db db' (.ok (some result)) → result.success = false)
    (runs : (orFail text body).Runs fns s db db' (.ok (some result))) : result.success = false := by
  unfold orFail at runs
  rcases Body.runs_tryCatch_iff.mp runs with ⟨_, runs, same⟩ | ⟨db₁, e, -, handled⟩
  · rw [← Except.ok.inj same] at runs
    exact fails db db' result runs
  · have same := (runs_pure_iff.mp handled).2
    cases same
    rfl

theorem triggers_quiet (quiet : env.NoTriggers) (event : TriggerEvent) (name : String)
    (old new : Option Row) (write : Option Row → Body Unit) :
    betweenTriggers env event name old new write = write new >>= fun _ => pure none := by
  unfold betweenTriggers
  rw [quiet]
  rfl

theorem runs_triggers_ok (quiet : env.NoTriggers) (op : Option Row → Op)
    {result : Option QueryResult}
    (runs : (betweenTriggers env event name old new (fun new => do
      let _ ← Body.perform (op new))).Runs fns s db db' (.ok result)) :
    result = none ∧
      ∃ resp, db.perform fns s (op new) = some (db', resp) ∧ resp.outcome = .ok () := by
  rw [triggers_quiet quiet] at runs
  obtain ⟨db₁, _, written, ends⟩ := runs_bind_ok runs
  obtain ⟨rfl, eq⟩ := runs_pure_iff.mp ends
  obtain ⟨db₂, resp, ran, ends⟩ := runs_bind_ok written
  obtain ⟨rfl, -⟩ := runs_pure_iff.mp ends
  exact ⟨Except.ok.inj eq, resp, Body.runs_perform_ok ran⟩

theorem all_triggers {Q : Op → Prop} (trigs : env.TriggersIn Q) {op : Option Row → Op}
    (write : ∀ new, Q (op new)) :
    (betweenTriggers env event name old new (fun new => do
      let _ ← Body.perform (op new))).All Q := by
  refine (trigs _ _ _ _ _).bind (fun before => ?_)
  dsimp only
  split
  · exact all_pure _
  · refine ((Body.all_perform (write _)).bind (fun _ => all_pure _)).bind (fun _ => ?_)
    refine (trigs _ _ _ _ _).bind (fun after => ?_)
    split <;> exact all_pure _

theorem all_turn {Q : Op → Prop} (all : body.All Q) : (turn text body).All Q := by
  refine (all.tryCatch (fun _ => all_pure _)).bind (fun result => ?_)
  cases result <;> exact all_pure _

theorem runs_turn_handled {counted : Nat}
    (runs : (turn text body).Runs fns s db db' (.ok (.inr counted))) :
    body.Runs fns s db db' (.ok none) := by
  obtain ⟨db₁, result, handled, ends⟩ := runs_bind_ok runs
  cases result with
  | none =>
    obtain ⟨rfl, -⟩ := runs_pure_iff.mp ends
    exact runs_orFail_none_iff.mp handled
  | some result => cases (runs_pure_iff.mp ends).2

theorem runs_turn_failed
    (fails : ∀ db db' result, body.Runs fns s db db' (.ok (some result)) → result.success = false)
    (runs : (turn text body).Runs fns s db db' (.ok (.inl result))) : result.success = false := by
  obtain ⟨db₁, ended, handled, ends⟩ := runs_bind_ok runs
  cases ended with
  | none => cases (runs_pure_iff.mp ends).2
  | some result' =>
    obtain ⟨rfl, eq⟩ := runs_pure_iff.mp ends
    cases eq
    exact failed_of_orFail fails handled

end Turns

end Executor

end NobugDb
