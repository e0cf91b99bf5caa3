import NobugDb.Executor.Dml

/-!
# Runs of statement bodies

How a body runs follows how it is written: rules for the exception monad over programs, for
what a run does and for the operations a body holds.
-/

namespace NobugDb

open Misc (Program)
open Misc.Program (exec runs_done_iff)

/-- The operation reads or writes rows. -/
def Op.onRows : Op → Bool
  | .look | .visible _ | .insert _ _ | .update _ _ _ | .delete _ _ _ => true
  | .updateInPlace _ _ _ | .deleteInPlace _ _ => true
  | _ => false

def Op.Responds (fns : Functions) (s : Nat) (op : Op) : Prop :=
  ∀ db : Database, (db.perform fns s op).isSome = true

namespace Body

variable {α β : Type} {fns : Functions} {s : Nat} {db db' : Database}

/-- From `db` the body runs to its end for session `s`, with the result or exception `r`, and
    leaves `db'`. -/
def Runs (fns : Functions) (s : Nat) (db : Database) (body : Body α) (db' : Database)
    (r : Except Exn α) : Prop :=
  Program.Runs (fun db op => db.perform fns s op) db body db' r

/-- Every operation in the body is one of `Q`. -/
def All (Q : Op → Prop) (body : Body α) : Prop := Program.All Q body

variable {r : Except Exn α} {body : Body α} {x : Except Exn α} {f : α → Body β}
  {handler : Exn → Body α} {op : Op} {name : String}

theorem Runs.unique {r' : Except Exn α} {ne : Database} (fst : Runs fns s db body db' r)
    (snd : Runs fns s db body ne r') : db' = ne ∧ r = r' :=
  Program.Runs.unique fst snd

theorem runs_of_result {body : Body α} {r : Except Exn α}
    (ends : (exec (fun db op => db.perform fns s op) db body).2.result? = some r) :
    Runs fns s db body (exec (fun db op => db.perform fns s op) db body).1 r :=
  Program.runs_of_result ends

/-! ## Runs -/

@[simp] theorem runs_pure_iff {a : α} : Runs fns s db (pure a) db' r ↔ db' = db ∧ r = .ok a :=
  runs_done_iff

@[simp] theorem runs_throw_iff {e : Exn} :
    Runs fns s db (throw e) db' r ↔ db' = db ∧ r = .error e :=
  runs_done_iff

@[simp] theorem runs_lift_iff : Runs fns s db (liftM x) db' r ↔ db' = db ∧ r = x :=
  runs_done_iff

theorem runs_bind_iff {r : Except Exn β} :
    Runs fns s db (body >>= f) db' r ↔
      (∃ db₁ a, Runs fns s db body db₁ (.ok a) ∧ Runs fns s db₁ (f a) db' r) ∨
        ∃ e, Runs fns s db body db' (.error e) ∧ r = .error e := by
  unfold Runs
  refine (Program.runs_bind_iff).trans ⟨?_, ?_⟩
  · rintro ⟨db₁, a | a, fst, second⟩
    · obtain ⟨rfl, rfl⟩ := runs_done_iff.mp second
      exact .inr ⟨a, fst, rfl⟩
    · exact .inl ⟨db₁, a, fst, second⟩
  · rintro (⟨db₁, a, fst, second⟩ | ⟨e, fst, rfl⟩)
    · exact ⟨db₁, .ok a, fst, second⟩
    · exact ⟨db', .error e, fst, runs_done_iff.mpr ⟨rfl, rfl⟩⟩

theorem runs_bind_ok {b : β} (runs : Runs fns s db (body >>= f) db' (.ok b)) :
    ∃ db₁ a, Runs fns s db body db₁ (.ok a) ∧ Runs fns s db₁ (f a) db' (.ok b) := by
  obtain hit | ⟨e, -, fail⟩ := runs_bind_iff.mp runs
  · exact hit
  · cases fail

theorem runs_tryCatch_iff :
    Runs fns s db (tryCatch body handler) db' r ↔
      (∃ a, Runs fns s db body db' (.ok a) ∧ r = .ok a) ∨
        ∃ db₁ e, Runs fns s db body db₁ (.error e) ∧ Runs fns s db₁ (handler e) db' r := by
  unfold Runs
  refine (Program.runs_bind_iff).trans ⟨?_, ?_⟩
  · rintro ⟨db₁, a | a, fst, second⟩
    · exact .inr ⟨db₁, a, fst, second⟩
    · obtain ⟨rfl, rfl⟩ := runs_done_iff.mp second
      exact .inl ⟨a, fst, rfl⟩
  · rintro (⟨a, fst, rfl⟩ | ⟨db₁, e, fst, second⟩)
    · exact ⟨db', .ok a, fst, runs_done_iff.mpr ⟨rfl, rfl⟩⟩
    · exact ⟨db₁, .error e, fst, second⟩

theorem runs_perform_iff {r : Except Exn Response} :
    Runs fns s db (perform op) db' r ↔
      ∃ resp, db.perform fns s op = some (db', resp) ∧
        r = resp.outcome.map (fun _ => resp) := by
  unfold perform
  rw [runs_bind_iff]
  have single (db₁ : Database) (r : Except Exn Response) :
      Runs fns s db (ExceptT.lift (Program.operation op)) db₁ r ↔
        ∃ resp, db.perform fns s op = some (db₁, resp) ∧ r = .ok resp := by
    unfold Runs
    refine Program.runs_perform_iff.trans ⟨?_, ?_⟩
    · rintro ⟨db₂, resp, ran, runs⟩
      obtain ⟨rfl, rfl⟩ := runs_done_iff.mp runs
      exact ⟨resp, ran, rfl⟩
    · rintro ⟨resp, ran, rfl⟩
      exact ⟨db₁, resp, ran, runs_done_iff.mpr ⟨rfl, rfl⟩⟩
  simp only [single]
  constructor
  · rintro (⟨db₁, resp, ⟨_, ran, ⟨⟩⟩, second⟩ | ⟨e, ⟨_, -, h⟩, -⟩)
    · refine ⟨resp, ?_, ?_⟩
      · split at second <;> (obtain ⟨rfl, -⟩ := runs_done_iff.mp second; exact ran)
      · split at second <;> rename_i out <;>
          (obtain ⟨-, rfl⟩ := runs_done_iff.mp second; rw [out]; rfl)
    · cases h
  · rintro ⟨resp, ran, rfl⟩
    refine .inl ⟨db', resp, ⟨resp, ran, rfl⟩, ?_⟩
    split <;> rename_i out <;> rw [out] <;> exact runs_done_iff.mpr ⟨rfl, rfl⟩

theorem runs_perform_ok {resp : Response} (runs : Runs fns s db (perform op) db' (.ok resp)) :
    db.perform fns s op = some (db', resp) ∧ resp.outcome = .ok () := by
  obtain ⟨answer, ran, ended⟩ := runs_perform_iff.mp runs
  cases out : answer.outcome <;> rw [out] at ended <;> cases ended
  exact ⟨ran, out⟩

theorem runs_perform_error {e : Exn} (runs : Runs fns s db (perform op) db' (.error e)) :
    ∃ resp, db.perform fns s op = some (db', resp) ∧ resp.outcome = .error e := by
  obtain ⟨answer, ran, ended⟩ := runs_perform_iff.mp runs
  cases out : answer.outcome <;> rw [out] at ended <;> cases ended
  exact ⟨answer, ran, out⟩

theorem runs_getTable_iff {r : Except Exn (Option Table)} :
    Runs fns s db (getTable name) db' r ↔ db' = db ∧ r = .ok (db.tables.lookup name) := by
  show Runs fns s db (pure (db.tables.lookup name)) db' r ↔ _
  exact runs_pure_iff

theorem runs_getTable_bind {next : Option Table → Body α} :
    Runs fns s db (getTable name >>= next) db' r ↔
      Runs fns s db (next (db.tables.lookup name)) db' r := Iff.rfl

/-! ## The operations of a body -/

section All

variable {Q Q' : Op → Prop}

variable {body : Body α}

theorem All.mono (sub : ∀ op, Q op → Q' op) (all : body.All Q) : body.All Q' :=
  Program.All.mono sub all

theorem all_pure (a : α) : All Q (pure a : Body α) := trivial

theorem all_throw (e : Exn) : All Q (throw e : Body α) := trivial

theorem all_lift (x : Except Exn α) : All Q (liftM x : Body α) := trivial

theorem all_perform (holds : Q op) : All Q (perform op) := by
  refine ⟨holds, fun resp => ?_⟩
  show Program.All Q (ExceptT.bindCont _ (.ok resp))
  simp only [ExceptT.bindCont]
  split <;> trivial

theorem All.bind (fst : body.All Q) (rest : ∀ a, (f a).All Q) : (body >>= f).All Q := by
  refine Program.All.bind fst (fun r => ?_)
  cases r with
  | error e => trivial
  | ok a => exact rest a

theorem all_lift_bind (rest : ∀ a, x = .ok a → (f a).All Q) : (liftM x >>= f : Body β).All Q := by
  cases x with
  | error e => trivial
  | ok a => exact rest a rfl

theorem All.tryCatch (fst : body.All Q) (rest : ∀ e, (handler e).All Q) :
    (MonadExcept.tryCatch body handler).All Q := by
  refine Program.All.bind fst (fun r => ?_)
  cases r with
  | error e => exact rest e
  | ok a => trivial

theorem all_forEach {f : α → Body Unit} {as : List α} (each : ∀ a ∈ as, (f a).All Q) :
    (forEach f as).All Q := by
  induction as with
  | nil => trivial
  | cons a as ih =>
    exact (each a (by simp)).bind (fun _ => ih (fun a mem => each a (by simp [mem])))

theorem all_getTable (look : Q .look) : All Q (getTable name) :=
  (all_perform look).bind (fun _ => all_pure _)

theorem All.keeps {I : Database → Prop} {r : Except Exn α} (all : body.All Q)
    (pres : ∀ db op db' resp, Q op → db.perform fns s op = some (db', resp) →
      I db → I db') (runs : Runs fns s db body db' r) (start : I db) : I db' :=
  Program.All.keeps all pres runs start

theorem All.ends (all : body.All Q)
    (responds : ∀ op, Q op → ∀ db : Database, (db.perform fns s op).isSome = true) (db : Database) :
    ∃ db' r, Runs fns s db body db' r :=
  Program.All.ends all responds db

end All

/-! ## Invariants of a body -/

section Upholds

variable {I : Database → Prop} {post : α → Prop} {post' : β → Prop}

/-- The body keeps `I`, also when it ends in an exception, and its value satisfies `post`. -/
def Upholds (fns : Functions) (s : Nat) (I : Database → Prop) (post : α → Prop) (body : Body α) :
    Prop :=
  Program.Upholds (fun db op => db.perform fns s op) I (fun r => ∀ a, r = .ok a → post a) body

theorem upholds_pure {a : α} (holds : post a) : Upholds fns s I post (pure a : Body α) :=
  fun _ eq => Except.ok.inj eq ▸ holds

theorem upholds_throw (e : Exn) : Upholds fns s I post (throw e : Body α) := nofun

theorem upholds_lift (holds : ∀ a, x = .ok a → post a) :
    Upholds fns s I post (liftM x : Body α) := holds

theorem upholds_perform {post : Response → Prop}
    (keeps : ∀ db db' resp, I db → db.perform fns s op = some (db', resp) →
      I db' ∧ post resp) : Upholds fns s I post (perform op) := by
  intro db db' resp holds ran
  obtain ⟨kept, follows⟩ := keeps db db' resp holds ran
  refine ⟨kept, ?_⟩
  show Program.Upholds _ I _ (ExceptT.bindCont _ (.ok resp))
  simp only [ExceptT.bindCont]
  split
  · exact fun _ eq => Except.ok.inj eq ▸ follows
  · exact nofun

variable {body : Body α}

theorem Upholds.bind (fst : body.Upholds fns s I post)
    (rest : ∀ a, post a → (f a).Upholds fns s I post') : (body >>= f).Upholds fns s I post' := by
  refine Program.Upholds.bind fst (fun r holds => ?_)
  cases r with
  | error e => exact nofun
  | ok a => exact rest a (holds a rfl)

theorem Upholds.tryCatch (fst : body.Upholds fns s I post)
    (rest : ∀ e, (handler e).Upholds fns s I post) :
    (MonadExcept.tryCatch body handler).Upholds fns s I post := by
  refine Program.Upholds.bind fst (fun r holds => ?_)
  cases r with
  | error e => exact rest e
  | ok a => exact holds

theorem upholds_forEach {f : α → Body Unit} {as : List α}
    (each : ∀ a ∈ as, (f a).Upholds fns s I (fun _ => True)) :
    (forEach f as).Upholds fns s I (fun _ => True) := by
  induction as with
  | nil => exact upholds_pure trivial
  | cons a as ih =>
    exact (each a (by simp)).bind (fun _ _ => ih (fun a mem => each a (by simp [mem])))

theorem All.upholds {Q : Op → Prop} (all : body.All Q)
    (pres : ∀ db op db' resp, Q op → db.perform fns s op = some (db', resp) →
      I db → I db') : body.Upholds fns s I (fun _ => True) :=
  ((Program.All.allTo all).upholds pres).mono (fun _ _ _ _ => trivial)

theorem upholds_look : Upholds fns s I (fun resp => ∃ db, I db ∧ resp.tables = db.tables)
    (perform .look) := by
  refine upholds_perform (fun db db' resp holds ran => ?_)
  cases ran
  exact ⟨holds, db, holds, rfl⟩

theorem upholds_getTable :
    Upholds fns s I (fun hit => ∃ db, I db ∧ hit = db.tables.lookup name) (getTable name) := by
  refine upholds_look.bind (fun resp looked => ?_)
  obtain ⟨db, holds, eq⟩ := looked
  exact upholds_pure ⟨db, holds, by rw [eq]⟩

end Upholds

end Body

end NobugDb
