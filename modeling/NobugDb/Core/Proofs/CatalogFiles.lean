import NobugDb.Core.Proofs.Catalogs

/-!
# Reloading the catalogs

`loadAll` registers what the files of the catalogs are read as. Which definitions it ends with does not
depend on the order of the files, but the order the triggers fire in does, and the loops read every file
of their directory, also one that an interrupted save has left.
-/

namespace NobugDb

/-- The definition without the text it was created with. -/
def Definition.bare {D : Type} (d : Definition D) : Definition D := { d with sourceSql := "" }

theorem name_of_bare {D : Type} {d d' : Definition D} (alike : d.bare = d'.bare) : d.name = d'.name :=
  (Definition.mk.inj alike).1

namespace Catalogs

open Misc (run Meets)

variable {Q : Type} {c c' : Catalogs Q} {a b e : Entry Q} {listed listed' : List CatalogFile}
  {parse : String → Except Exn (Option (CreateStatement Q))} {file : CatalogFile}

namespace Entry

def bare : Entry Q → Entry Q
  | .function d => .function d.bare
  | .procedure d => .procedure d.bare
  | .trigger d => .trigger d.bare

def asTrigger : Entry Q → Option (Definition TriggerContent)
  | .trigger d => some d
  | _ => none

/-- The catalogs do not hold both: functions and procedures share their names, and the names of triggers
    are compared without regard to case. -/
def clashes : Entry Q → Entry Q → Bool
  | .function d, .function d' => d.name == d'.name
  | .function d, .procedure d' => d.name == d'.name
  | .procedure d, .function d' => d.name == d'.name
  | .procedure d, .procedure d' => d.name == d'.name
  | .trigger d, .trigger d' => namesEqualIgnoreCase d.name d'.name
  | _, _ => false

theorem clashes_comm (a b : Entry Q) : a.clashes b = b.clashes a := by
  cases a <;> cases b <;> simp only [clashes, namesEqualIgnoreCase] <;> apply Bool.beq_comm

theorem clashes_congr (alike : a.bare = b.bare) (e : Entry Q) : a.clashes e = b.clashes e := by
  have bare (a : Entry Q) : a.bare.clashes e = a.clashes e := by cases a <;> cases e <;> rfl
  rw [← bare a, ← bare b, alike]

end Entry

/-- All definitions. -/
def entries (c : Catalogs Q) : List (Entry Q) :=
  c.functions.map .function ++ c.procedures.map .procedure ++ c.triggers.map .trigger

/-- The catalogs hold the same definitions, in some order. -/
def Same (c c' : Catalogs Q) : Prop := (c.entries.map Entry.bare).Perm (c'.entries.map Entry.bare)

theorem Same.refl (c : Catalogs Q) : Same c c := List.Perm.refl _

theorem Same.symm (eq : Same c c') : Same c' c := List.Perm.symm eq

theorem Same.trans {c'' : Catalogs Q} (fst : Same c c') (snd : Same c' c'') : Same c c'' :=
  List.Perm.trans fst snd

/-- The catalogs with one more definition. -/
def add (c : Catalogs Q) : Entry Q → Catalogs Q
  | .function d => { c with functions := c.functions ++ [d] }
  | .procedure d => { c with procedures := c.procedures ++ [d] }
  | .trigger d => { c with triggers := c.triggers ++ [d] }

/-- No definition of the catalogs has the name. -/
def Fresh (c : Catalogs Q) (e : Entry Q) : Prop := ∀ x ∈ c.entries, x.clashes e = false

theorem entries_add (c : Catalogs Q) (e : Entry Q) : (c.add e).entries.Perm (e :: c.entries) := by
  cases e with
  | function d =>
    simp only [entries, add, List.map_append, List.append_assoc]
    exact List.perm_middle
  | procedure d =>
    have between := @List.perm_middle _ (Entry.procedure d)
      (c.functions.map .function ++ c.procedures.map .procedure) (c.triggers.map .trigger)
    simpa [entries, add] using between
  | trigger d =>
    simp only [entries, add, List.map_append, ← List.append_assoc]
    exact List.perm_append_singleton _ _

theorem fresh_add_iff : (c.add a).Fresh b ↔ a.clashes b = false ∧ c.Fresh b := by
  simp only [Fresh, (entries_add c a).mem_iff, List.forall_mem_cons]

theorem Same.fresh (eq : Same c c') (fresh : c.Fresh e) : c'.Fresh e := by
  intro x mem
  obtain ⟨y, before, alike⟩ := List.mem_map.mp (eq.mem_iff.mpr (List.mem_map_of_mem mem))
  rw [← Entry.clashes_congr alike]
  exact fresh y before

theorem same_add_iff : Same (c.add a) (c'.add b) ↔
    (a.bare :: c.entries.map Entry.bare).Perm (b.bare :: c'.entries.map Entry.bare) := by
  have fst := (entries_add c a).map Entry.bare
  have second := (entries_add c' b).map Entry.bare
  unfold Same
  exact ⟨fun eq => fst.symm.trans (eq.trans second), fun eq => fst.trans (eq.trans second.symm)⟩

theorem Fresh.alike (fresh : c.Fresh a) (alike : a.bare = b.bare) : c.Fresh b := by
  intro x mem
  rw [Entry.clashes_comm, ← Entry.clashes_congr alike, Entry.clashes_comm]
  exact fresh x mem

theorem not_same_add (e : Entry Q) : ¬ Same (c.add e) c := by
  intro same
  have longer := same.length_eq
  simp [(entries_add c e).length_eq] at longer

theorem bare_eq_of_same_add (eq : Same (c.add a) (c.add b)) : a.bare = b.bare := by
  have perm : ([a.bare] ++ c.entries.map Entry.bare).Perm ([b.bare] ++ _) := same_add_iff.mp eq
  exact List.singleton_perm_singleton.mp ((List.perm_append_right_iff _).mp perm)

theorem fresh_function_iff {d : Definition (FunctionContent Q)} : c.Fresh (.function d) ↔
    has c.functions d.name = false ∧ has c.procedures d.name = false := by
  simp [Fresh, entries, has_eq_false_iff, or_imp, forall_and, Entry.clashes]

theorem fresh_procedure_iff {d : Definition ProcedureContent} : c.Fresh (.procedure d) ↔
    has c.procedures d.name = false ∧ has c.functions d.name = false := by
  simp [Fresh, entries, has_eq_false_iff, or_imp, forall_and, Entry.clashes, and_comm]

variable {d : Definition TriggerContent}

theorem fresh_trigger_iff : c.Fresh (.trigger d) ↔
    ∀ t ∈ c.triggers, namesEqualIgnoreCase t.name d.name = false := by
  simp [Fresh, entries, or_imp, forall_and, Entry.clashes]

theorem register_eq_ok_iff : c.register e = .ok c' ↔ c.Fresh e ∧ c' = c.add e := by
  have mapped {D : Type} (f : List (Definition D) → Catalogs Q) (x : Except Exn (List (Definition D))) :
      f <$> x = .ok c' ↔ ∃ l, x = .ok l ∧ c' = f l := by
    cases x <;> simp [eq_comm]
  cases e with
  | function d => simp [register, mapped, registerRoutine_eq_ok_iff, fresh_function_iff, add, and_assoc]
  | procedure d =>
    simp [register, mapped, registerRoutine_eq_ok_iff, fresh_procedure_iff, add, and_assoc]
  | trigger d => simp [register, mapped, registerTrigger_eq_ok_iff, fresh_trigger_iff, add]

theorem loadFile_eq_ok_iff : loadFile parse c file = .ok c' ↔
    (readFile parse file = .ok none ∧ c' = c) ∨
      ∃ e, readFile parse file = .ok (some e) ∧ c.Fresh e ∧ c' = c.add e := by
  unfold loadFile
  cases readFile parse file with
  | error exn => simp [bind, Except.bind]
  | ok entry =>
    cases entry with
    | none => simp [bind, Except.bind, pure, Except.pure, eq_comm]
    | some e => simp [bind, Except.bind, register_eq_ok_iff]

/-! ## The order of the files -/

theorem loadFile_congr (eq : Same c c') {after : Catalogs Q} (loaded : loadFile parse c file = .ok after) :
    ∃ after', loadFile parse c' file = .ok after' ∧ Same after after' := by
  obtain ⟨read, rfl⟩ | ⟨e, read, fresh, rfl⟩ := loadFile_eq_ok_iff.mp loaded
  · exact ⟨c', loadFile_eq_ok_iff.mpr (.inl ⟨read, rfl⟩), eq⟩
  · exact ⟨c'.add e, loadFile_eq_ok_iff.mpr (.inr ⟨e, read, eq.fresh fresh, rfl⟩),
      same_add_iff.mpr (eq.cons _)⟩

theorem loadFile_comm {file' : CatalogFile} {c₁ c₂ : Catalogs Q} (fst : loadFile parse c file = .ok c₁)
    (snd : loadFile parse c₁ file' = .ok c₂) :
    ∃ c₁' c₂', loadFile parse c file' = .ok c₁' ∧ loadFile parse c₁' file = .ok c₂' ∧ Same c₂ c₂' := by
  obtain ⟨readNone, rfl⟩ | ⟨e, read, fresh, rfl⟩ := loadFile_eq_ok_iff.mp fst
  · exact ⟨c₂, c₂, snd, loadFile_eq_ok_iff.mpr (.inl ⟨readNone, rfl⟩), .refl _⟩
  · obtain ⟨readNone, rfl⟩ | ⟨e', read', fresh', rfl⟩ := loadFile_eq_ok_iff.mp snd
    · exact ⟨c, c.add e, loadFile_eq_ok_iff.mpr (.inl ⟨readNone, rfl⟩), fst, .refl _⟩
    · obtain ⟨apart, fresh'⟩ := fresh_add_iff.mp fresh'
      have later : (c.add e').Fresh e := fresh_add_iff.mpr ⟨Entry.clashes_comm e e' ▸ apart, fresh⟩
      refine ⟨c.add e', (c.add e').add e, loadFile_eq_ok_iff.mpr (.inr ⟨e', read', fresh', rfl⟩),
        loadFile_eq_ok_iff.mpr (.inr ⟨e, read, later, rfl⟩), same_add_iff.mpr ?_⟩
      have one (x y : Entry Q) : (x.bare :: (c.add y).entries.map Entry.bare).Perm
          (x.bare :: y.bare :: c.entries.map Entry.bare) := ((entries_add c y).map Entry.bare).cons _
      exact (one e' e).trans ((List.Perm.swap _ _ _).trans (one e e').symm)

/-- The files loaded one after another. -/
def loadEach (parse : String → Except Exn (Option (CreateStatement Q))) (files : List CatalogFile) :
    Except Exn (Catalogs Q) :=
  files.foldlM (loadFile parse) ⟨[], [], []⟩

theorem loadEach_append (loaded : loadEach parse listed = .ok c) (rest : List CatalogFile) :
    loadEach parse (listed ++ rest) = rest.foldlM (loadFile parse) c := by
  rw [loadEach, List.foldlM_append]
  exact congrArg (· >>= _) loaded

theorem loadEach_perm (perm : listed.Perm listed') (loaded : loadEach parse listed = .ok c) :
    ∃ c', loadEach parse listed' = .ok c' ∧ Same c c' := by
  refine @Exn.foldlM_perm Exn (Catalogs Q) CatalogFile (loadFile parse) Same .refl ?_ ?_ ?_ _ _ perm _ _ loaded
  · exact fun _ _ _ fst snd => fst.trans snd
  · exact fun _ _ _ _ eq loaded => loadFile_congr eq loaded
  · exact fun _ _ _ _ _ fst snd => loadFile_comm fst snd

theorem loadAll_eq : ∃ sorted, listed.Perm sorted ∧ loadAll parse listed = loadEach parse sorted := by
  refine ⟨_, ?_, List.foldlM_append.symm⟩
  have triggers : (fun file : CatalogFile => file.directory == .triggers) =
      fun file => !(file.directory == .routines) := by
    funext file
    cases file.directory <;> rfl
  rw [triggers]
  exact (List.filter_append_perm _ _).symm

theorem loadAll_perm (perm : listed.Perm listed') (loaded : loadEach parse listed = .ok c) :
    ∃ c', loadAll parse listed' = .ok c' ∧ Same c c' := by
  obtain ⟨sorted, order, eq⟩ := @loadAll_eq Q listed' parse
  rw [eq]
  exact loadEach_perm (perm.trans order) loaded

theorem loadEach_of_loadAll (loaded : loadAll parse listed = .ok c) :
    ∃ c', loadEach parse listed = .ok c' ∧ Same c c' := by
  obtain ⟨sorted, order, eq⟩ := @loadAll_eq Q listed parse
  rw [eq] at loaded
  exact loadEach_perm order.symm loaded

/-! ## Interrupted saves -/

/-- The files of the definitions. -/
def files (c : Catalogs Q) : List CatalogFile := c.entries.map Entry.file

/-- What an interrupted save leaves does no harm: nothing, the whole file in its place, or a temporary
    file that is read as the new definition, or passed over. -/
def SaveCrash.Harmless (parse : String → Except Exn (Option (CreateStatement Q))) (e : Entry Q)
    (crash : SaveCrash) : Prop :=
  match crash with
  | .before | .renamed => True
  | .writing _ => ∀ file ∈ crash.leaves e.file, readFile parse file = .ok none ∨
      ∃ e', readFile parse file = .ok (some e') ∧ e'.bare = e.bare

def purge : Definition ProcedureContent := ⟨"purge", ⟨[], ["DELETE FROM logs"]⟩, "CREATE PROCEDURE purge"⟩

/-- Reads the text of the procedure. -/
def readPurge (text : String) : Except Exn (Option (CreateStatement Empty)) :=
  if text = purge.sourceSql then .ok (some (.procedure "purge" [] ["DELETE FROM logs"] text))
  else .error ⟨.parse, "Unknown statement"⟩

/-- The text of a CREATE TRIGGER is read as its trigger. -/
def ReadsBack (parse : String → Except Exn (Option (CreateStatement Q)))
    (d : Definition TriggerContent) : Prop :=
  ∃ d', readFile parse (triggerFile d) = .ok (some (.trigger d')) ∧ d'.bare = d.bare

/-- A CREATE TRIGGER on a table that is there is for a new name. -/
def Store.Fresh (st : Store Q) : TriggerStatement Q → Prop
  | .create host d => host.hasTable d.content.tableName = true → st.catalogs.Fresh (.trigger d)
  | .drop .. => True

/-- The store of triggers that are all saved. -/
def Store.of (triggers : List (Definition TriggerContent)) : Store Q :=
  ⟨⟨[], [], triggers⟩, triggers.map triggerFile⟩

/-- Triggers that can be saved and loaded together. -/
structure Savable (parse : String → Except Exn (Option (CreateStatement Q)))
    (triggers : List (Definition TriggerContent)) : Prop where
  reads : ∀ d ∈ triggers, ReadsBack parse d
  distinct : triggers.Pairwise fun d d' => namesEqualIgnoreCase d.name d'.name = false

variable {triggers : List (Definition TriggerContent)}

theorem removeFile_map (d : Definition TriggerContent) :
    removeFile (triggers.map triggerFile) (triggerFile d) =
      (without triggers d.name).map triggerFile := by
  rw [removeFile, List.filter_map, without]
  congr 1
  refine List.filter_congr fun d _ => ?_
  simp [triggerFile, bne]

theorem createTrigger_ok {host : Host Q} (done : (executeCreateTrigger host c d).2.success = true) :
    c.Fresh (.trigger d) ∧ (executeCreateTrigger host c d).1 = c.add (.trigger d) := by
  revert done
  unfold executeCreateTrigger createOrUndo
  split
  · cases reg : registerTrigger c.triggers d with
    | error exn => simp [bind, Except.bind, reg, created, QueryResult.errorResult]
    | ok l =>
      obtain ⟨fresh, rfl⟩ := registerTrigger_eq_ok_iff.mp reg
      cases saved : saveNamed host.write "Trigger" "_triggers" ".trig" d.name (c.triggers ++ [d]) with
      | error exn => simp [bind, Except.bind, reg, saved, created, QueryResult.errorResult]
      | ok _ => simp [bind, Except.bind, reg, saved, add, fresh_trigger_iff.mpr fresh]
  · simp [QueryResult.errorResult]

theorem Savable.step (savable : Savable parse triggers) {stmt : TriggerStatement Q}
    (fresh : (Store.of triggers).Fresh stmt)
    (reads : ∀ host d, stmt = .create host d → ReadsBack parse d) :
    ∃ triggers', Savable parse triggers' ∧ (Store.of triggers).step stmt = Store.of triggers' := by
  cases stmt with
  | create host d =>
    cases done : (executeCreateTrigger host (Store.of triggers).catalogs d).2.success with
    | true =>
      obtain ⟨isNew, after⟩ := createTrigger_ok done
      replace isNew : ∀ t ∈ triggers, namesEqualIgnoreCase t.name d.name = false :=
        fresh_trigger_iff.mp isNew
      refine ⟨triggers ++ [d], ⟨?_, ?_⟩, ?_⟩
      · simpa [or_imp, forall_and] using ⟨savable.reads, reads host d rfl⟩
      · exact List.pairwise_append.mpr
          ⟨savable.distinct, List.pairwise_singleton _ _, by simpa using isNew⟩
      · have others : without triggers d.name = triggers :=
          List.filter_eq_self.mpr fun t mem => bne_iff_ne.mpr (name_ne (isNew t mem))
        simp only [Store.step, after, done, if_true]
        simp only [Store.of, removeFile_map, others, add, List.map_append, List.map_singleton]
    | false =>
      refine ⟨triggers, savable, ?_⟩
      have kept := createTrigger_keeps_iff.mpr ?_ done
      · simp only [Store.step, kept, done]
        rfl
      · rintro ⟨tab, t, mem, eq⟩
        rw [fresh_trigger_iff.mp (fresh tab) t mem] at eq
        cases eq
  | drop name ifExists =>
    simp only [Store.step, executeDropTrigger]
    cases hit : getNamed (Store.of triggers : Store Q).catalogs.triggers name with
    | none => exact ⟨triggers, savable, rfl⟩
    | some stored =>
      refine ⟨without triggers stored.name, ⟨?_, savable.distinct.filter _⟩, ?_⟩
      · exact fun d mem => savable.reads d (List.mem_filter.mp mem).1
      · simp only [unregisterTrigger, hit]
        simp only [Store.of, removeFile_map]

open Definition (bare)

theorem Savable.load (savable : Savable parse triggers) :
    ∃ l, loadAll parse (triggers.map triggerFile) = .ok ⟨[], [], l⟩ ∧
      l.map bare = triggers.map bare := by
  have all : loadAll parse (triggers.map triggerFile) = loadEach parse (triggers.map triggerFile) := by
    have apart : (Directory.triggers == Directory.routines) = false := rfl
    simp [loadAll, loadEach, List.filter_map, Function.comp_def, triggerFile, apart]
  rw [all]
  clear all
  induction triggers using List.reverseRecOn with
  | nil => exact ⟨[], rfl, rfl⟩
  | append_singleton triggers d ih =>
    obtain ⟨nodup, -, last⟩ := List.pairwise_append.mp savable.distinct
    obtain ⟨l, loaded, alike⟩ := ih ⟨fun d mem => savable.reads d (by simp [mem]), nodup⟩
    obtain ⟨d', read, alike'⟩ := savable.reads d (by simp)
    have fresh : (⟨[], [], l⟩ : Catalogs Q).Fresh (.trigger d') := by
      rw [fresh_trigger_iff]
      intro t mem
      have before : t.bare ∈ triggers.map bare := alike ▸ List.mem_map_of_mem mem
      obtain ⟨t', member', eq⟩ := List.mem_map.mp before
      rw [← name_of_bare eq, name_of_bare alike']
      exact last t' member' d (by simp)
    refine ⟨l ++ [d'], ?_, by simp [alike, alike']⟩
    rw [List.map_append, loadEach_append loaded]
    simpa [add] using loadFile_eq_ok_iff.mpr (.inr ⟨_, read, fresh, rfl⟩)

theorem Same.perm_triggers (eq : Same c c') :
    (c.triggers.map bare).Perm (c'.triggers.map bare) := by
  have perm := List.Perm.filterMap Entry.asTrigger eq
  simpa [entries, List.filterMap_map, Function.comp_def, Entry.bare, Entry.asTrigger] using perm

theorem listBy_bare (tableName : String) (timing : TriggerTiming) (event : TriggerEvent) :
    (listBy triggers tableName timing event).map bare =
      listBy (triggers.map bare) tableName timing event := by
  rw [listBy, listBy, List.filter_map]
  rfl

/-- Without repetitions, only lists of at most one element are their own reverse. -/
theorem length_le_one_of_reverse {α : Type} {l : List α} (once : l.Nodup) (eq : l.reverse = l) :
    l.length ≤ 1 := by
  cases l with
  | nil => exact Nat.zero_le 1
  | cons a rest =>
    cases rest with
    | nil => exact le_rfl
    | cons b rest =>
      have last : (a :: b :: rest).getLast? = some a := by
        rw [← eq, List.getLast?_reverse]
        rfl
      rw [List.getLast?_cons_cons] at last
      exact absurd (List.mem_of_getLast? last) (List.nodup_cons.mp once).1

theorem eq_of_perm_of_length_le_one {α : Type} {l l' : List α} (perm : l.Perm l') (single : l'.length ≤ 1) :
    l = l' := by
  cases l' with
  | nil => exact perm.eq_nil
  | cons a rest =>
    obtain rfl := List.eq_nil_of_length_eq_zero (Nat.le_zero.mp (Nat.le_of_succ_le_succ single))
    exact List.perm_singleton.mp perm

theorem Savable.reverse (savable : Savable parse triggers) : Savable parse triggers.reverse := by
  refine ⟨fun d mem => savable.reads d (List.mem_reverse.mp mem), List.pairwise_reverse.mpr ?_⟩
  refine savable.distinct.imp fun {d d'} differ => ?_
  rw [namesEqualIgnoreCase, Bool.beq_comm]
  exact differ

theorem Savable.nodup (savable : Savable parse triggers) : (triggers.map bare).Nodup :=
  List.pairwise_map.mpr (savable.distinct.imp fun differ eq => name_ne differ (name_of_bare eq))

/-- A trigger on `logs`. -/
def logged (name : String) : Definition TriggerContent :=
  ⟨name, ⟨"logs", .after, .insert, ["DELETE FROM drafts"]⟩, "CREATE TRIGGER " ++ name⟩

/-- Reads the texts of two triggers. -/
def readLogged (text : String) : Except Exn (Option (CreateStatement Empty)) :=
  if text = "CREATE TRIGGER a" then .ok (some (.trigger (logged "a")))
  else if text = "CREATE TRIGGER b" then .ok (some (.trigger (logged "b")))
  else .error ⟨.parse, "Unknown statement"⟩

/-- CREATE TRIGGER where nothing is in the way. -/
def createLogged (name : String) : TriggerStatement Empty :=
  .create ⟨fun _ => false, fun _ => false, fun _ _ => none, fun _ => true, fun _ _ => .ok ()⟩ (logged name)

end Catalogs

end NobugDb
