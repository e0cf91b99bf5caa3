import NobugDb.Core.SessionCalls

/-!
# Readers reach no executor that writes

The permission check of `execute_query` looks at the statement it is given and, for EXECUTE, at the
statement prepared under the name. What a reader's statement calls later is found in the session and
in catalogs that others change, so the check has to be carried from the outermost call to all others.
-/

namespace NobugDb

open Activation
open List (mem_append mem_map mem_singleton)

variable {Q : Type} {d : Dialect Q}

def Identity.IsReader (identity : Identity) : Prop :=
  identity.authenticated = true ∧ identity.role = some .reader

namespace Activation

/-- What a reader may have at work. An EXECUTE has been let through for what is prepared under its
    name, and a PREPARE for the statement it prepares. -/
def Harmless (session : SessionContext Q) : Activation Q → Prop
  | .dispatch (.execute name) =>
    ∀ stmt, session.prepared.lookup name = some (some stmt) → stmt.canReaderExecute = true
  | .dispatch stmt => stmt.canReaderExecute = true
  | .prepare _ inner => ∀ stmt, inner = some stmt → stmt.canReaderExecute = true
  | .insert _ | .update _ | .delete _ | .ddl _ | .call _ _ => False
  | _ => True

variable {session : SessionContext Q} {a : Activation Q} {stmt : ParsedStatement Q}
  {callee : Activation Q}

theorem Harmless.not_writes (harmless : a.Harmless session) : a.writes = false := by
  cases a <;> first | rfl | exact harmless.elim

theorem harmless_dispatch_of_canReaderExecute (allowed : stmt.canReaderExecute = true) :
    (dispatch stmt).Harmless session := by
  cases stmt <;> first | exact allowed | cases allowed

theorem harmless_dispatch_of_authorized (authorized : isStatementAuthorized .reader stmt session = true) :
    (dispatch stmt).Harmless session := by
  cases stmt with
  | execute name =>
    intro prepared hit
    simp only [isStatementAuthorized, hit] at authorized
    exact authorized
  | _ => exact harmless_dispatch_of_canReaderExecute authorized

/-- `dispatch_statement` of a harmless statement calls what is harmless. -/
theorem Harmless.ofStatement (harmless : (dispatch stmt).Harmless session)
    (called : callee ∈ ofStatement session stmt) : callee.Harmless session := by
  cases stmt with
  | execute name =>
    -- what is prepared under the name was checked, and it is no EXECUTE itself
    obtain ⟨prepared, hit, rfl⟩ : ∃ prepared, (session.prepared.lookup name).join = some prepared ∧
        dispatch prepared = callee := by
      simpa [Activation.ofStatement] using called
    exact harmless_dispatch_of_canReaderExecute
      (harmless prepared (Option.join_eq_some_iff.mp hit))
  | explain inner =>
    cases mem_singleton.mp called
    exact harmless_dispatch_of_canReaderExecute harmless
  | prepare name inner =>
    cases mem_singleton.mp called
    rintro stmt rfl
    exact harmless
  | insert | update | delete | ddl | call | setNew => cases harmless
  | _ =>
    cases mem_singleton.mp called
    trivial

/-- Queries, views, expressions and functions call nothing but each other. -/
theorem Harmless.callees {c : Catalog Q} (harmless : a.Harmless session)
    (called : callee ∈ a.callees d c session) : callee.Harmless session := by
  cases a with
  | dispatch stmt => exact harmless.ofStatement called
  | insert | update | delete | ddl | call => exact harmless.elim
  | operand operand =>
    cases operand with
    | select stmt =>
      cases mem_singleton.mp called
      trivial
    | setOperation stmt =>
      cases stmt
      simp only [callees, List.cons_append, List.nil_append, List.mem_cons, mem_map] at called
      obtain rfl | rfl | ⟨_, -, rfl⟩ := called <;> trivial
  | select stmt =>
    simp only [callees, mem_append, mem_map] at called
    obtain ⟨_, -, rfl⟩ | ⟨_, -, rfl⟩ := called <;> trivial
  | view body =>
    simp only [callees, mem_append, mem_map, mem_singleton] at called
    obtain ⟨_, -, rfl⟩ | rfl := called <;> trivial
  | expression e =>
    simp only [callees, ofFunction, mem_append, mem_map, Option.mem_toList,
      Option.map_eq_some_iff] at called
    obtain (⟨_, -, rfl⟩ | ⟨_, -, rfl⟩) | ⟨_, -, rfl⟩ := called <;> trivial
  | scalar e =>
    simp only [callees, ofFunction, mem_append, mem_map, Option.mem_toList,
      Option.map_eq_some_iff] at called
    obtain ⟨_, -, rfl⟩ | ⟨_, -, rfl⟩ := called <;> trivial
  | begin | commit | rollback | prepare | deallocate => cases called

/-- A harmless PREPARE puts a statement under its name that readers may execute, and a DEALLOCATE
    takes one away, so an EXECUTE that waits for its callee stays harmless. -/
theorem Harmless.prepared (harmless : a.Harmless session) (entered : callee.Harmless session) :
    a.Harmless (Server.prepared session callee) := by
  suffices kept : ∀ name stmt,
      (Server.prepared session callee).prepared.lookup name = some (some stmt) →
        session.prepared.lookup name = some (some stmt) ∨ stmt.canReaderExecute = true by
    cases a with
    | dispatch stmt =>
      cases stmt with
      | execute name =>
        intro stmt hit
        obtain old | allowed := kept name stmt hit
        · exact harmless stmt old
        · exact allowed
      | _ => exact harmless
    | _ => exact harmless
  intro name stmt hit
  cases callee with
  | prepare tgt inner =>
    cases inner with
    | none => exact .inl hit
    | some inner =>
      simp only [Server.prepared, Misc.lookup_assign] at hit
      split at hit
      · cases hit
        exact .inr (entered stmt rfl)
      · exact .inl hit
  | deallocate tgt =>
    simp only [Server.prepared, Misc.lookup_erase] at hit
    split at hit
    · cases hit
    · exact .inl hit
  | _ => exact .inl hit

end Activation

namespace Server

/-- Everything at work for a reader is harmless. -/
def Guarded (sv : Server d) : Prop :=
  sv.identity.IsReader → ∀ a ∈ sv.stack, a.Harmless sv.session

variable {sv : Server d}

theorem guarded_of_idle (idle : sv.stack = []) : sv.Guarded := by
  intro _ a mem
  simp [idle] at mem

/-- `execute_query` dispatches for a reader only what the check lets through. -/
theorem authorize_guarded (idle : sv.stack = []) (stmt : ParsedStatement Q) :
    (sv.authorize stmt).Guarded := by
  unfold authorize
  split
  · exact guarded_of_idle idle
  · rename_i passed
    intro reader a mem
    cases mem_singleton.mp mem
    apply harmless_dispatch_of_authorized
    have known : sv.identity.authenticated = true := reader.1
    have role : sv.identity.role = some .reader := reader.2
    simpa [known, role] using passed

theorem query_guarded (idle : sv.stack = []) (sql : String) : (sv.executeQuery sql).Guarded := by
  unfold executeQuery
  split
  · apply authorize_guarded
    exact idle
  · split
    · exact guarded_of_idle idle
    · apply authorize_guarded
      exact idle

theorem step_guarded (sv : Server d) (action : Action Q) (guarded : sv.Guarded) :
    (sv.step action).Guarded := by
  cases action with
  | auth identity =>
    simp only [step]
    split
    · rename_i idle
      exact guarded_of_idle (List.isEmpty_iff.mp idle)
    · exact guarded
  | query sql =>
    simp only [step]
    split
    · rename_i idle
      exact query_guarded (List.isEmpty_iff.mp idle) sql
    · exact guarded
  | enter n =>
    simp only [step]
    split
    · exact guarded
    · rename_i top rest stack
      split
      · exact guarded
      · rename_i callee called
        intro reader a mem
        have harmless : callee.Harmless sv.session :=
          (guarded reader top (by simp [stack])).callees (List.mem_of_getElem? called)
        obtain rfl | old := List.mem_cons.mp mem
        · exact harmless.prepared harmless
        · exact (guarded reader a old).prepared harmless
  | leave => exact fun reader a mem => guarded reader a (List.mem_of_mem_tail mem)
  | alter catalog => exact guarded
  | cache sql =>
    simp only [step]
    split <;> exact guarded
  | clearCache => exact guarded

/-- Whatever an idle server's session sends, calls and is answered, with whatever prepared statements
    and catalogs it starts from, and whatever the other sessions change in between: while a reader is
    connected, no executor of INSERT, UPDATE, DELETE, DDL, VACUUM or CALL is at work for it. -/
theorem reader_reaches_no_writer (sv : Server d) (idle : sv.stack = []) (actions : List (Action Q))
    (reader : (Misc.run step sv actions).identity.IsReader) :
    ∀ a ∈ (Misc.run step sv actions).stack, a.writes = false := by
  intro a member
  have guarded := Misc.run_inv step_guarded (guarded_of_idle idle) actions
  exact (guarded reader a member).not_writes

/-- A few statements over a table of users, a view of it and a procedure that deletes from it. -/
private def readings : Dialect Unit where
  parse sql :=
    if sql = "BEGIN" then .ok .begin
    else if sql = "COMMIT" then .ok .commit
    else if sql = "ROLLBACK" then .ok .rollback
    else if sql = "PREPARE p AS SELECT id FROM adults" then
      .ok (.prepare "p" (some (.select { fromTable := "adults" })))
    else if sql = "EXECUTE p" then .ok (.execute "p")
    else if sql = "CALL purge()" then .ok (.call "purge" [])
    else .error "Expected a statement"
  parse_begin := rfl
  parse_commit := rfl
  parse_rollback := rfl
  select _ := { fromTable := "users" }
  hasFunction _ := false

private def reading : Server readings where
  catalog :=
    { tables := ["users"]
      views := [("adults", { fromTable := "users" })]
      procedures := [("purge", [.delete { table := "users", whereCondition := none }])] }
  identity := { authenticated := true, role := some .reader }

/-- A reader prepares a query of a view and executes it; the CALL before it was refused. Four calls
    are at work when the view is materialized. -/
theorem reader_executes_prepared_view : let actions : List (Action Unit) :=
      [.query "CALL purge()", .query "PREPARE p AS SELECT id FROM adults", .enter 0, .leave, .leave,
        .query "EXECUTE p", .enter 0, .enter 0, .enter 0]
    (Misc.run step reading actions).stack.length = 4 ∧
      ∀ a ∈ (Misc.run step reading actions).stack, a.writes = false :=
  ⟨by decide, reader_reaches_no_writer reading rfl _ ⟨by decide, by decide⟩⟩

end Server

end NobugDb
