import NobugDb.Core.Relations

/-!
# Names of tables and of views

CREATE TABLE and CREATE VIEW look a name up among the tables and the views. RENAME TO looks
among the tables only, and it alone can give a table the name of a view.
-/

namespace NobugDb.Relations

open Misc (AssocMap Meets)

/-- No name is both a table and a view. -/
def Apart (r : Relations) : Prop :=
  ∀ name, r.tables.contains name = true → r.views.contains name = false

/-- The statement does not rename a table to the name of a view. -/
def SparesViews (r : Relations) : RelationStatement → Prop
  | .renameTable name newName _ =>
    r.tables.contains name = true → r.tables.contains newName = false →
      r.views.contains newName = false
  | _ => True

variable {r : Relations} {V : Type} {m : AssocMap String V} {name n : String} {v : V}

theorem contains_assign : (m.assign name v).contains n = (n == name || m.contains n) := by
  simp only [AssocMap.contains, Misc.lookup_assign]
  by_cases eq : n = name <;> simp [eq]

theorem contains_of_erase (kept : (m.erase name).contains n = true) : m.contains n = true := by
  simp only [AssocMap.contains, Misc.lookup_erase] at kept ⊢
  by_cases eq : n = name
  · simp [eq] at kept
  · simpa [eq] using kept

theorem contains_of_erases {α : Type} {f : α → String} {l : List α}
    (kept : (l.foldl (fun m a => AssocMap.erase (f a) m) m).contains n = true) :
    m.contains n = true := by
  induction l generalizing m with
  | nil => exact kept
  | cons a l ih => exact contains_of_erase (ih kept)

section

variable (apart : r.Apart)
include apart

theorem Apart.fewerTables {tables : AssocMap String NamedTable}
    (fewer : ∀ n, tables.contains n = true → r.tables.contains n = true) :
    Apart { r with tables } :=
  fun n isTable => apart n (fewer n isTable)

theorem Apart.addTable (free : r.views.contains name = false)
    (tab : NamedTable) : Apart { r with tables := r.tables.assign name tab } := by
  intro n isTable
  simp only [contains_assign, Bool.or_eq_true, beq_iff_eq] at isTable
  rcases isTable with rfl | isTable
  · exact free
  · exact apart n isTable

theorem Apart.addView (free : r.tables.contains name = false)
    (sql : String) : Apart { r with views := r.views.assign name sql } := by
  intro n isTable
  have ne : n ≠ name := by
    rintro rfl
    simp [free] at isTable
  simpa [contains_assign, ne] using apart n isTable

theorem Apart.dropView (name : String) : Apart { r with views := r.views.erase name } := by
  intro n isTable
  by_contra isView
  have before := contains_of_erase (by simpa using isView)
  simp [apart n isTable] at before

theorem Apart.setPartitions (name : String)
    (metadata : PartitionedTableMetadata) : (r.setPartitions name metadata).Apart :=
  apart.fewerTables fun n isTable => by rwa [Misc.adjust_contains] at isTable

theorem Apart.step {stmt : RelationStatement} (spares : r.SparesViews stmt) :
    (r.step stmt).Apart := by
  cases stmt with
  | createTable name tab build saved =>
    simp only [Relations.step, execute, executeCreateTable]
    split
    · exact apart
    · next noView =>
      have added := apart.addTable (Bool.not_eq_true _ ▸ noView) tab
      repeat' split
      all_goals first | exact apart | exact added
  | createPartitionOf name parent bound build saved =>
    simp only [Relations.step, execute, executeCreatePartitionOf]
    split
    · exact apart
    · next free =>
      have noView : r.views.contains name = false := by simp_all
      repeat' split
      all_goals first
        | exact apart
        | exact apart.setPartitions _ _
        | exact (apart.setPartitions _ _).addTable noView _
  | createView name sql saved =>
    simp only [Relations.step, execute, executeCreateView]
    split
    · exact apart
    · next noTable =>
      have added := apart.addView (Bool.not_eq_true _ ▸ noTable) sql
      repeat' split
      all_goals first | exact apart | exact added
  | renameTable name newName saved =>
    simp only [Relations.step, execute, executeRenameTable]
    split
    · exact apart
    · next tab hit =>
      split
      · exact apart
      · next free =>
        have noView : r.views.contains newName = false :=
          spares (by rw [AssocMap.contains, hit]; rfl) (Bool.not_eq_true _ ▸ free)
        have fewer : Apart { r with tables := r.tables.erase name } :=
          apart.fewerTables (fun _ => contains_of_erase)
        split <;> exact fewer.addTable noView tab
  | dropTable name saved =>
    have dropped {r : Relations} (apart : r.Apart) :
        Apart { r with tables := r.tables.erase name } :=
      apart.fewerTables (fun _ => contains_of_erase)
    simp only [Relations.step, execute, executeDropTable]
    repeat' split
    all_goals first
      | exact apart
      | exact dropped apart
      | exact apart.setPartitions _ _
      | exact dropped (apart.setPartitions _ _)
      | exact apart.fewerTables (fun _ => contains_of_erases)
      | exact dropped (apart.fewerTables (fun _ => contains_of_erases))
  | dropView name ifExists removed =>
    simp only [Relations.step, execute, executeDropView]
    repeat' split
    all_goals first | exact apart | exact apart.dropView name

theorem apart_step_iff (stmt : RelationStatement) : (r.step stmt).Apart ↔ r.SparesViews stmt := by
  refine ⟨fun after => ?_, apart.step⟩
  cases stmt with
  | renameTable name newName saved =>
    intro isTable free
    obtain ⟨tab, hit⟩ := Option.isSome_iff_exists.mp isTable
    have renamed : r.step (.renameTable name newName saved) =
        { r with tables := (r.tables.erase name).assign newName tab } := by
      simp only [Relations.step, execute, executeRenameTable, hit, free]
      cases saved <;> rfl
    rw [renamed] at after
    exact after newName (by simp [contains_assign])
  | _ => trivial

end

/-- **Names**: after each statement of a run no name is both a table and a view, exactly when no
    table is renamed to the name of a view. -/
theorem apart_iff_sparesViews (start : Relations) (apart : start.Apart)
    (stmts : List RelationStatement) :
    Meets Relations.step (fun r stmt => (r.step stmt).Apart) start stmts ↔
      Meets Relations.step SparesViews start stmts :=
  Meets.iff_of_inv (I := Apart) (fun _ _ _ _ after => after)
    (fun _ stmt _ apart => apart_step_iff apart stmt) apart

theorem renamed_table_apart :
    Meets Relations.step (fun r stmt => (r.step stmt).Apart) {}
      [.createView "v" "SELECT 1" (.ok ()), .createTable "t" {} (.ok ()) (.ok ()),
        .renameTable "t" "u" (.ok ())] :=
  (apart_iff_sparesViews {} (fun _ isTable => by cases isTable) _).mpr
    ⟨trivial, trivial, fun _ _ => by decide, trivial⟩

/-- The table takes the name of the view. -/
theorem renamed_to_view :
    ¬ (Misc.run Relations.step {}
      [.createView "v" "SELECT 1" (.ok ()), .createTable "t" {} (.ok ()) (.ok ()),
        .renameTable "t" "v" (.ok ())]).Apart :=
  fun apart => absurd (apart "v" (by decide)) (by decide)

end NobugDb.Relations
