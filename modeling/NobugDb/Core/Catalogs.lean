import NobugDb.Core.ForeignKeys

/-!
# Catalogs of routines and triggers

`RoutineCatalog` and `TriggerCatalog` (`src/core/routine_catalog.cc`, `src/core/trigger_catalog.cc`),
and the statements that create what they hold and drop triggers (`database.cc:1883-2043`). A catalog is
the list of its definitions; that of the triggers is in the order of `order_`.
-/

namespace NobugDb

/-- A function, procedure or trigger: its name, what it is, and the text it was created with. -/
structure Definition (D : Type) where
  name : String
  content : D
  sourceSql : String
  deriving DecidableEq

/-- The rest of a `FunctionDefinition`. -/
structure FunctionContent (Q : Type) where
  params : List (String × DataType)
  returnType : DataType
  body : Expr Q

/-- The rest of a `ProcedureDefinition`. -/
structure ProcedureContent where
  params : List (String × DataType)
  statementSqls : List String

/-- The rest of a `TriggerDefinition`. -/
structure TriggerContent where
  tableName : String
  timing : TriggerTiming
  event : TriggerEvent
  statementSqls : List String
  deriving DecidableEq

/-- The catalogs. -/
structure Catalogs (Q : Type) where
  functions : List (Definition (FunctionContent Q))
  procedures : List (Definition ProcedureContent)
  triggers : List (Definition TriggerContent)

namespace Catalogs

variable {D Q : Type}

/-- `hasFunction`, `hasProcedure`: names are compared exactly. -/
def has (entries : List (Definition D)) (name : String) : Bool := entries.any (·.name == name)

/-- The entries without the name: `erase`. -/
def without (entries : List (Definition D)) (name : String) : List (Definition D) :=
  entries.filter (·.name != name)

def namesEqualIgnoreCase (left right : String) : Bool :=
  left.toList.map Char.toLower == right.toList.map Char.toLower

/-- `getFunction`, `getProcedure`, `getTrigger`: by the exact name, or else by the name in other
    letters, of which a catalog of triggers has one and a save of a routine makes no use. -/
def getNamed (entries : List (Definition D)) (name : String) : Option (Definition D) :=
  (entries.find? (·.name == name)).or (entries.find? (fun d => namesEqualIgnoreCase d.name name))

/-- `registerFunction` and `registerProcedure` (`routine_catalog.cc:131-157`), for which `other` says
    whether the other catalog has the name. -/
def registerRoutine (kind otherKind : String) (other : Bool) (entries : List (Definition D))
    (d : Definition D) : Except Exn (List (Definition D)) :=
  if has entries d.name then .error ⟨.constraint, kind ++ " '" ++ d.name ++ "' already exists"⟩
  else if other then
    .error ⟨.constraint, "Routine name '" ++ d.name ++ "' already used by a " ++ otherKind⟩
  else .ok (entries ++ [d])

/-- `TriggerCatalog::registerTrigger` (`trigger_catalog.cc:108-117`). -/
def registerTrigger (entries : List (Definition D)) (d : Definition D) :
    Except Exn (List (Definition D)) :=
  if (getNamed entries d.name).isSome then
    .error ⟨.constraint, "Trigger '" ++ d.name ++ "' already exists"⟩
  else .ok (entries ++ [d])

/-- `TriggerCatalog::unregisterTrigger` (`trigger_catalog.cc:119-128`) of a trigger there is. -/
def unregisterTrigger (entries : List (Definition D)) (name : String) : List (Definition D) :=
  match getNamed entries name with
  | some existing => without entries existing.name
  | none => entries

/-- `saveFunction`, `saveProcedure` and `saveTrigger`; `write` puts a text into a file. -/
def saveNamed (write : String → String → Except Exn Unit) (kind directory extension : String)
    (name : String) (entries : List (Definition D)) : Except Exn Unit :=
  match getNamed entries name with
  | none => .error ⟨.notFound, kind ++ " '" ++ name ++ "' not found"⟩
  | some d => write (directory ++ "/" ++ name ++ extension) d.sourceSql

/-- `string_to_data_type` (`data_type.h:38-52`). -/
def stringToDataType (text : String) : Except Exn DataType :=
  let upper := String.ofList (text.toList.map Char.toUpper)
  if ["INT", "INTEGER"].contains upper then .ok .int
  else if ["FLOAT", "REAL", "DOUBLE"].contains upper then .ok .float
  else if ["STRING", "TEXT", "VARCHAR"].contains upper then .ok .string
  else if ["BOOLEAN", "BOOL"].contains upper then .ok .boolean
  else if upper = "DATE" then .ok .date
  else if upper = "UUID" then .ok .uuid
  else .error ⟨.invalidArgument, "Unknown data type: " ++ text⟩

/-- The `try` block and the handler that the CREATE statements share: the definition is read,
    registered and saved, and when one of these throws, what the catalog has under the name is
    unregistered. -/
def createOrUndo (has : List (Definition D) → Bool)
    (unregister : List (Definition D) → List (Definition D))
    (register : List (Definition D) → Definition D → Except Exn (List (Definition D)))
    (save : List (Definition D) → Except Exn Unit) (definition : Except Exn (Definition D))
    (entries : List (Definition D)) : List (Definition D) × Option Exn :=
  match definition >>= register entries with
  | .error e => (if has entries then unregister entries else entries, some e)
  | .ok registered =>
    match save registered with
    | .error e => (if has registered then unregister registered else registered, some e)
    | .ok _ => (registered, none)

/-- The handler for routines. -/
def createRoutine (kind otherKind extension : String) (write : String → String → Except Exn Unit)
    (name : String) (other : Bool) :=
  @createOrUndo D (has · name) (without · name) (registerRoutine kind otherKind other)
    (saveNamed write kind "_routines" extension name)

/-- What the statements call: the builtin functions, the checks of a function's body, the tables, and
    the file operations of a save. -/
structure Host (Q : Type) where
  isBuiltin : String → Bool
  hasAggregate : Expr Q → Bool
  validateExpressionTree : List String → Expr Q → Option String
  hasTable : String → Bool
  write : String → String → Except Exn Unit

/-- The result of a CREATE statement. -/
def created (kind : String) : Option Exn → QueryResult
  | none => .successResult ("CREATE " ++ kind ++ " OK")
  | some e => .errorResult e.what

/-- The declared parameters, with their types by name. -/
abbrev ParamAsts : Type := List (String × String)

/-- The parameters with their types. -/
def readParams (params : ParamAsts) : Except Exn (List (String × DataType)) :=
  params.mapM fun p => do return (p.1, ← stringToDataType p.2)

/-- `Database::execute_create_function_statement` (`database.cc:1883-1918`). -/
def executeCreateFunction (host : Host Q) (c : Catalogs Q) (name : String) (params : ParamAsts)
    (returnType : String) (body : Expr Q) (sourceSql : String) : Catalogs Q × QueryResult :=
  if host.isBuiltin name then
    (c, .errorResult ("Cannot override builtin function '" ++ name ++ "'"))
  else if host.hasAggregate body then
    (c, .errorResult "Aggregate functions are not allowed in scalar function body")
  else
    match host.validateExpressionTree (params.map Prod.fst) body with
    | some err => (c, .errorResult err)
    | none =>
      let outcome := createRoutine "Function" "procedure" ".func" host.write name
        (has c.procedures name) (do
          let params ← readParams params
          return ⟨name, ⟨params, ← stringToDataType returnType, body⟩, sourceSql⟩) c.functions
      ({ c with functions := outcome.1 }, created "FUNCTION" outcome.2)

/-- `Database::execute_create_procedure_statement` (`database.cc:1938-1957`). -/
def executeCreateProcedure (host : Host Q) (c : Catalogs Q) (name : String) (params : ParamAsts)
    (statementSqls : List String) (sourceSql : String) : Catalogs Q × QueryResult :=
  let outcome := createRoutine "Procedure" "function" ".proc" host.write name
    (has c.functions name) (do return ⟨name, ⟨← readParams params, statementSqls⟩, sourceSql⟩)
    c.procedures
  ({ c with procedures := outcome.1 }, created "PROCEDURE" outcome.2)

/-- `Database::execute_create_trigger_statement` (`database.cc:2004-2023`). -/
def executeCreateTrigger (host : Host Q) (c : Catalogs Q) (d : Definition TriggerContent) :
    Catalogs Q × QueryResult :=
  if host.hasTable d.content.tableName then
    let outcome := createOrUndo (fun entries => (getNamed entries d.name).isSome)
      (unregisterTrigger · d.name) registerTrigger
      (saveNamed host.write "Trigger" "_triggers" ".trig" d.name) (.ok d) c.triggers
    ({ c with triggers := outcome.1 }, created "TRIGGER" outcome.2)
  else (c, .errorResult ("Table '" ++ d.content.tableName ++ "' not found"))

/-- A CREATE statement. -/
inductive CreateStatement (Q : Type) where
  | function (name : String) (params : ParamAsts) (returnType : String) (body : Expr Q)
      (sourceSql : String)
  | procedure (name : String) (params : ParamAsts) (statementSqls : List String) (sourceSql : String)
  | trigger (definition : Definition TriggerContent)

/-- The execution of a CREATE statement. -/
def executeCreate (host : Host Q) (c : Catalogs Q) : CreateStatement Q → Catalogs Q × QueryResult
  | .function name params returnType body sourceSql =>
    executeCreateFunction host c name params returnType body sourceSql
  | .procedure name params statementSqls sourceSql =>
    executeCreateProcedure host c name params statementSqls sourceSql
  | .trigger d => executeCreateTrigger host c d

/-- `TriggerCatalog::listBy` (`trigger_catalog.cc:87-106`): the triggers in the order they fire in. -/
def listBy (triggers : List (Definition TriggerContent)) (tableName : String) (timing : TriggerTiming)
    (event : TriggerEvent) : List (Definition TriggerContent) :=
  triggers.filter fun d => namesEqualIgnoreCase d.content.tableName tableName &&
    d.content.timing == timing && d.content.event == event

/-! ## The files -/

/-- The directories `_routines` and `_triggers`. -/
inductive Directory where
  | routines
  | triggers
  deriving DecidableEq

/-- A file of one of the directories. -/
structure CatalogFile where
  directory : Directory
  name : String
  text : String
  deriving DecidableEq

/-- What a file holds. -/
inductive Entry (Q : Type) where
  | function (d : Definition (FunctionContent Q))
  | procedure (d : Definition ProcedureContent)
  | trigger (d : Definition TriggerContent)

/-- `buildTriggerPath`, and the text that is saved. -/
def triggerFile (d : Definition TriggerContent) : CatalogFile :=
  ⟨.triggers, d.name ++ ".trig", d.sourceSql⟩

/-- `buildFunctionPath`, `buildProcedurePath` and `buildTriggerPath`, likewise. -/
def Entry.file : Entry Q → CatalogFile
  | .function d => ⟨.routines, d.name ++ ".func", d.sourceSql⟩
  | .procedure d => ⟨.routines, d.name ++ ".proc", d.sourceSql⟩
  | .trigger d => triggerFile d

def trimTrailingNoise (text : String) : String :=
  String.ofList (text.toList.reverse.dropWhile ['\n', '\r', ';', ' ', '\t'].contains).reverse

/-- What a file of a directory is read as: `parse` gives a CREATE statement, or none for other ones,
    which `RoutineCatalog::loadAll` passes over. -/
def readFile (parse : String → Except Exn (Option (CreateStatement Q))) (file : CatalogFile) :
    Except Exn (Option (Entry Q)) := do
  match file.directory, ← parse (trimTrailingNoise file.text) with
  | .routines, some (.function name params returnType body sourceSql) =>
    let params ← readParams params
    return some (.function ⟨name, ⟨params, ← stringToDataType returnType, body⟩, sourceSql⟩)
  | .routines, some (.procedure name params statementSqls sourceSql) =>
    return some (.procedure ⟨name, ⟨← readParams params, statementSqls⟩, sourceSql⟩)
  | .routines, _ => return none
  | .triggers, some (.trigger d) => return some (.trigger d)
  | .triggers, _ => throw ⟨.storage, "Invalid trigger file: _triggers/" ++ file.name⟩

/-- `registerFunction`, `registerProcedure` and `registerTrigger`. -/
def register (c : Catalogs Q) : Entry Q → Except Exn (Catalogs Q)
  | .function d => do
    return { c with functions :=
      ← registerRoutine "Function" "procedure" (has c.procedures d.name) c.functions d }
  | .procedure d => do
    return { c with procedures :=
      ← registerRoutine "Procedure" "function" (has c.functions d.name) c.procedures d }
  | .trigger d => do return { c with triggers := ← registerTrigger c.triggers d }

/-- One turn of the loops of `loadAll` (`routine_catalog.cc:246-285`, `trigger_catalog.cc:170-193`). -/
def loadFile (parse : String → Except Exn (Option (CreateStatement Q))) (c : Catalogs Q)
    (file : CatalogFile) : Except Exn (Catalogs Q) := do
  match ← readFile parse file with
  | none => return c
  | some e => c.register e

/-- Both `loadAll`, as the database is opened (`database.cc:193-194`); `files` lists each directory in
    the order it is enumerated in. -/
def loadAll (parse : String → Except Exn (Option (CreateStatement Q))) (files : List CatalogFile) :
    Except Exn (Catalogs Q) := do
  let c ← (files.filter (·.directory == .routines)).foldlM (loadFile parse) ⟨[], [], []⟩
  (files.filter (·.directory == .triggers)).foldlM (loadFile parse) c

/-- Where a crash interrupts `saveFunction`, `saveProcedure` or `saveTrigger`. -/
inductive SaveCrash where
  | before
  | writing (written : Nat)
  | renamed

/-- The file that an interrupted save leaves. -/
def SaveCrash.leaves (file : CatalogFile) : SaveCrash → List CatalogFile
  | .before => []
  | .writing written => [{ file with
      name := file.name ++ ".tmp", text := String.ofList (file.text.toList.take written) }]
  | .renamed => [file]

/-- The files without the one at the path. -/
def removeFile (files : List CatalogFile) (path : CatalogFile) : List CatalogFile :=
  files.filter fun file => (file.directory, file.name) != (path.directory, path.name)

/-- The catalogs and their files. -/
structure Store (Q : Type) where
  catalogs : Catalogs Q
  files : List CatalogFile

/-- `Database::execute_drop_trigger_statement` (`database.cc:2025-2043`). -/
def executeDropTrigger (st : Store Q) (name : String) (ifExists : Bool) : Store Q × QueryResult :=
  match getNamed st.catalogs.triggers name with
  | none => (st, if ifExists then .successResult "DROP TRIGGER OK"
      else .errorResult ("Trigger '" ++ name ++ "' not found"))
  | some stored =>
    (⟨{ st.catalogs with triggers := unregisterTrigger st.catalogs.triggers name },
      removeFile st.files (triggerFile stored)⟩, .successResult "DROP TRIGGER OK")

/-- CREATE TRIGGER, on some host, and DROP TRIGGER. -/
inductive TriggerStatement (Q : Type) where
  | create (host : Host Q) (definition : Definition TriggerContent)
  | drop (name : String) (ifExists : Bool)

/-- The execution of such a statement; a CREATE that succeeds has renamed its file into place. -/
def Store.step (st : Store Q) : TriggerStatement Q → Store Q
  | .create host d =>
    let (catalogs, result) := executeCreateTrigger host st.catalogs d
    ⟨catalogs, if result.success then removeFile st.files (triggerFile d) ++ [triggerFile d]
      else st.files⟩
  | .drop name ifExists => (executeDropTrigger st name ifExists).1

end Catalogs

end NobugDb
