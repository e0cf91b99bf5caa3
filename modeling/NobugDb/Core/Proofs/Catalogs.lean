import NobugDb.Core.Catalogs

/-!
# Failed CREATE statements

The handler of a CREATE statement takes back what the statement registered. It asks the catalog
only for the name, so that it also unregisters an older definition when the name was taken.
-/

namespace NobugDb.Catalogs

variable {D Q : Type} {entries : List (Definition D)} {name : String}
  {definition : Except Exn (Definition D)} {d : Definition D} {kind : String}
  {reg : List (Definition D)}

theorem createOrUndo_keeps_iff {has : List (Definition D) → Bool}
    {unregister : List (Definition D) → List (Definition D)}
    {register : List (Definition D) → Definition D → Except Exn (List (Definition D))}
    {save : List (Definition D) → Except Exn Unit}
    (refused : has entries = true → ∀ d, definition = .ok d → ∃ e, register entries d = .error e)
    (removed : has entries = true → unregister entries ≠ entries)
    (undone : ∀ d reg, definition = .ok d → register entries d = .ok reg →
      has reg = true ∧ unregister reg = entries) :
    ((createOrUndo has unregister register save definition entries).2 ≠ none →
        (createOrUndo has unregister register save definition entries).1 = entries) ↔
      has entries = false := by
  unfold createOrUndo
  cases read : definition with
  | error e => cases taken : has entries <;> simp [bind, Except.bind, removed, taken]
  | ok d =>
    cases out : register entries d with
    | error e => cases taken : has entries <;> simp [bind, Except.bind, out, removed, taken]
    | ok reg =>
      obtain ⟨there, back⟩ := undone d reg read out
      have fresh : has entries = false := by
        rw [Bool.eq_false_iff]
        intro taken
        obtain ⟨e, fail⟩ := refused taken d read
        cases fail.symm.trans out
      cases saved : save reg <;> simp [bind, Except.bind, out, there, back, saved, fresh]

theorem without_ne (mem : d ∈ entries) : without entries d.name ≠ entries := by
  intro same
  have kept := List.filter_eq_self.mp same d mem
  simp at kept

theorem without_append (fresh : ∀ e ∈ entries, e.name ≠ d.name) :
    without (entries ++ [d]) d.name = entries := by
  rw [without, List.filter_append, List.filter_eq_self.mpr (by simpa using fresh)]
  simp

theorem has_eq_false_iff : has entries name = false ↔ ∀ d ∈ entries, d.name ≠ name := by
  simp [has]

theorem registerRoutine_eq_ok_iff {otherKind : String} {ne : Bool} :
    registerRoutine kind otherKind ne entries d = .ok reg ↔
      has entries d.name = false ∧ ne = false ∧ reg = entries ++ [d] := by
  unfold registerRoutine
  cases has entries d.name <;> cases ne <;> simp [eq_comm]

theorem createRoutine_keeps_iff {otherKind extension : String}
    {write : String → String → Except Exn Unit} {ne : Bool}
    (named : ∀ d, definition = .ok d → d.name = name) :
    ((createRoutine kind otherKind extension write name ne definition entries).2 ≠ none →
        (createRoutine kind otherKind extension write name ne definition entries).1 = entries) ↔
      has entries name = false := by
  apply createOrUndo_keeps_iff
  · intro taken d read
    rw [← named d read] at taken
    exact ⟨_, if_pos taken⟩
  · intro taken
    obtain ⟨d, mem, eq⟩ := List.any_eq_true.mp taken
    rw [← eq_of_beq eq]
    exact without_ne mem
  · intro d registered read done
    obtain rfl := named d read
    obtain ⟨fresh, -, rfl⟩ := registerRoutine_eq_ok_iff.mp done
    exact ⟨by simp [has], without_append (has_eq_false_iff.mp fresh)⟩

theorem getNamed_isSome : (getNamed entries name).isSome = true ↔
    ∃ d ∈ entries, namesEqualIgnoreCase d.name name = true := by
  rw [getNamed, Option.isSome_or, Bool.or_eq_true, List.find?_isSome, List.find?_isSome]
  constructor
  · rintro (⟨d, mem, eq⟩ | hit)
    · exact ⟨d, mem, by simp [eq_of_beq eq, namesEqualIgnoreCase]⟩
    · exact hit
  · exact .inr

theorem registerTrigger_eq_ok_iff :
    registerTrigger entries d = .ok reg ↔
      (∀ e ∈ entries, namesEqualIgnoreCase e.name d.name = false) ∧ reg = entries ++ [d] := by
  have taken := @getNamed_isSome D entries d.name
  unfold registerTrigger
  cases hit : (getNamed entries d.name).isSome with
  | true =>
    obtain ⟨e, mem, eq⟩ := taken.mp hit
    simp only [if_true, reduceCtorEq, false_iff]
    intro fresh
    rw [fresh.1 e mem] at eq
    cases eq
  | false =>
    have fresh : ∀ e ∈ entries, namesEqualIgnoreCase e.name d.name = false := by
      simpa [hit] using taken
    constructor
    · rintro ⟨⟩
      exact ⟨fresh, rfl⟩
    · rintro ⟨-, rfl⟩
      rfl

theorem mem_of_getNamed (hit : getNamed entries name = some d) : d ∈ entries := by
  rcases Option.or_eq_some_iff.mp hit with fst | ⟨-, snd⟩
  · exact List.mem_of_find?_eq_some fst
  · exact List.mem_of_find?_eq_some snd

theorem name_ne {name other : String} (differ : namesEqualIgnoreCase name other = false) :
    name ≠ other := by
  rintro rfl
  simp [namesEqualIgnoreCase] at differ

theorem getNamed_append (fresh : ∀ e ∈ entries, namesEqualIgnoreCase e.name d.name = false) :
    getNamed (entries ++ [d]) d.name = some d := by
  have none : entries.find? (·.name == d.name) = none := by
    simpa using fun e mem => name_ne (fresh e mem)
  simp [getNamed, List.find?_append, none]

theorem created_failed {failure : Option Exn} :
    (created kind failure).success = false ↔ failure ≠ none := by
  cases failure <;> simp [created, QueryResult.successResult, QueryResult.errorResult]

theorem createTrigger_keeps_iff {host : Host Q} {c : Catalogs Q} {d : Definition TriggerContent} :
    ((executeCreateTrigger host c d).2.success = false → (executeCreateTrigger host c d).1 = c) ↔
      ¬ (host.hasTable d.content.tableName = true ∧
        ∃ e ∈ c.triggers, namesEqualIgnoreCase e.name d.name = true) := by
  cases c with | mk functions procedures trigs =>
  simp only [executeCreateTrigger, ← getNamed_isSome]
  cases tab : host.hasTable d.content.tableName with
  | false => simp
  | true =>
    simp only [if_true, created_failed, mk.injEq, true_and]
    rw [createOrUndo_keeps_iff, Bool.not_eq_true]
    · rintro taken _ ⟨⟩
      exact ⟨_, if_pos taken⟩
    · intro taken
      obtain ⟨e, hit⟩ := Option.isSome_iff_exists.mp taken
      rw [unregisterTrigger, hit]
      exact without_ne (mem_of_getNamed hit)
    · rintro _ reg ⟨⟩ done
      obtain ⟨fresh, rfl⟩ := registerTrigger_eq_ok_iff.mp done
      have hit := getNamed_append fresh
      refine ⟨by rw [hit]; rfl, ?_⟩
      rw [unregisterTrigger, hit]
      exact without_append fun e mem => name_ne (fresh e mem)

/-- The statement gets to registering, and the catalog has its name already. -/
def Taken (host : Host Q) (c : Catalogs Q) : CreateStatement Q → Prop
  | .function name params _ body _ =>
    host.isBuiltin name = false ∧ host.hasAggregate body = false ∧
      host.validateExpressionTree (params.map Prod.fst) body = none ∧ has c.functions name = true
  | .procedure name _ _ _ => has c.procedures name = true
  | .trigger d =>
    host.hasTable d.content.tableName = true ∧
      ∃ e ∈ c.triggers, namesEqualIgnoreCase e.name d.name = true

/-- A CREATE statement that fails leaves the catalogs as they were just when it does not get as far as
    registering a name the catalog has. -/
theorem create_failed_keeps_iff (host : Host Q) (c : Catalogs Q) (stmt : CreateStatement Q) :
    ((executeCreate host c stmt).2.success = false → (executeCreate host c stmt).1 = c) ↔
      ¬ Taken host c stmt := by
  cases c with | mk functions procedures triggers =>
  cases stmt with
  | function name params returnType body sourceSql =>
    simp only [executeCreate, executeCreateFunction, Taken]
    cases builtin : host.isBuiltin name with
    | true => simp
    | false =>
      cases aggregate : host.hasAggregate body with
      | true => simp
      | false =>
        cases checked : host.validateExpressionTree (params.map Prod.fst) body with
        | some err => simp
        | none =>
          simp only [Bool.false_eq_true, if_false, created_failed, mk.injEq, and_true, true_and]
          rw [createRoutine_keeps_iff, Bool.not_eq_true]
          intro d read
          obtain ⟨_, -, read⟩ := Exn.bind_eq_ok read
          obtain ⟨_, -, read⟩ := Exn.bind_eq_ok read
          cases read
          rfl
  | procedure name params statementSqls sourceSql =>
    simp only [executeCreate, executeCreateProcedure, Taken, created_failed, mk.injEq, and_true,
      true_and]
    rw [createRoutine_keeps_iff, Bool.not_eq_true]
    intro d read
    obtain ⟨_, -, read⟩ := Exn.bind_eq_ok read
    cases read
    rfl
  | trigger d => exact createTrigger_keeps_iff

/-- A second CREATE PROCEDURE of one name fails, and the first procedure is gone. -/
theorem create_taken_unregisters : let host : Host Empty :=
      ⟨fun _ => false, fun _ => false, fun _ _ => none, fun _ => true, fun _ _ => .ok ()⟩
    let purge := Definition.mk "purge" (ProcedureContent.mk [] ["DELETE FROM logs"])
      "CREATE PROCEDURE purge() BEGIN DELETE FROM logs; END"
    let outcome := executeCreate host ⟨[], [purge], []⟩
      (.procedure "purge" [] [] "CREATE PROCEDURE purge() BEGIN END")
    outcome.2 = .errorResult "Constraint Error: Procedure 'purge' already exists" ∧
      outcome.1.procedures = [] := by
  intro host purge outcome
  exact ⟨by decide, rfl⟩

end NobugDb.Catalogs
