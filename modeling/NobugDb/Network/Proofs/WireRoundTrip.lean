import NobugDb.Misc.Delimited
import NobugDb.Network.Protocol
import NobugDb.Parser.Lexer

/-!
# Results over the wire

What `parse_query_result` reads never has a tab, a newline, a carriage return or the NULL marker in
a text, and it is no longer than what it was read from. So a result comes back as it was exactly
when its own texts are free of these (`Legible`).
-/

namespace NobugDb.Protocol

open Misc (weight)
open Function (comp_def)
open List (map_map mem_map mem_map_of_mem nil_append)
open String (ofList toList)

def Plain (text : Wire) : Prop := '\t' ∉ text ∧ '\n' ∉ text ∧ '\r' ∉ text

/-- What the other side makes of a value: NULL, or its text. -/
def onWire (val : Value) : Value := if val.isNull then .null else .string val.toString

def rowLine (row : List Value) : Wire := joinTabs (row.map encodeWireCell)

/-- Column names and rows that come back from the wire: no text has a delimiter, none of the values
    has the NULL marker as its text, and no line reads as that of fewer cells. -/
structure Legible (names : List String) (rows : List (List Value)) : Prop where
  names_plain : ∀ name ∈ names, Plain name.toList
  names_ne : names ≠ [""]
  rows_ne : ∀ row ∈ rows, row ≠ []
  cells_plain : ∀ row ∈ rows, ∀ val ∈ row, val.isNull = false →
    Plain val.toString.toList ∧ val.toString.toList ≠ kWireNull
  rows_visible : names = [] → ∀ row ∈ rows, rowLine row ≠ []

/-! ## Cells -/

variable (body line : Wire) {val : Value} {row : List Value}

theorem splitTabsFrom_eq {cur : Wire} (clear : '\t' ∉ cur) (line : Wire) :
    splitTabsFrom cur line = (cur ++ line).splitOn '\t' := by
  induction line generalizing cur with
  | nil => rw [splitTabsFrom, List.append_nil, List.splitOn_eq_singleton clear]
  | cons ch line ih =>
    rw [splitTabsFrom]
    split
    · next tab => rw [tab, ih (by simp), List.splitOn_append_cons_self_of_not_mem clear]; rfl
    · next ne =>
      rw [ih (by simp [clear, Ne.symm ne])]
      simp only [List.append_assoc, List.singleton_append]

theorem splitTabs_eq : splitTabs line = line.splitOn '\t' :=
  splitTabsFrom_eq (by simp) line

theorem splitTabs_ne_nil : splitTabs line ≠ [] := by
  rw [splitTabs_eq]
  exact List.splitOn_ne_nil _ _

theorem joinTabs_splitTabs : joinTabs (splitTabs line) = line := by
  rw [splitTabs_eq, joinTabs, List.intercalate_splitOn]

theorem splitTabs_joinTabs {cells : List Wire} (plain : ∀ cell ∈ cells, Plain cell)
    (nonempty : cells ≠ []) : splitTabs (joinTabs cells) = cells := by
  rw [splitTabs_eq, joinTabs, List.splitOn_intercalate _ (fun cell mem => (plain cell mem).1)
    nonempty]

@[simp] theorem encodeCell_null : encodeWireCell .null = kWireNull := rfl

@[simp] theorem encodeCell_onWire (val : Value) : encodeWireCell (onWire val) = encodeWireCell val := by
  cases val <;> rfl

@[simp] theorem isNull_onWire (val : Value) : (onWire val).isNull = val.isNull := by
  cases val <;> rfl

theorem encodeCell_of_not_null (given : val.isNull = false) :
    encodeWireCell val = val.toString.toList := by
  rw [encodeWireCell, given]
  rfl

theorem decodeWireCell_encodeCell (apart : val.isNull = false → val.toString.toList ≠ kWireNull) :
    decodeWireCell (encodeWireCell val) = onWire val := by
  cases null : val.isNull with
  | true => rw [Value.isNull_eq_true.1 null]; rfl
  | false =>
    rw [encodeCell_of_not_null null, decodeWireCell, if_neg (apart null), onWire, null,
      String.ofList_toList]
    rfl

theorem encodeCell_decodeWireCell (cell : Wire) : encodeWireCell (decodeWireCell cell) = cell := by
  unfold decodeWireCell
  split
  · next marker => rw [marker]; rfl
  · exact String.toList_ofList

/-! ## Lines -/

theorem foldl_readChar (body : Wire) (lines : List Wire) {cur : Wire} (clear : '\n' ∉ cur) :
    (body.foldl readChar (lines, cur)).1 ++ [(body.foldl readChar (lines, cur)).2] =
      lines ++ (cur ++ body.filter (· != '\r')).splitOn '\n' := by
  induction body generalizing lines cur with
  | nil => simp [List.splitOn_eq_singleton clear]
  | cons ch body ih =>
    rw [List.foldl_cons, readChar]
    split
    · next newline =>
      subst newline
      rw [ih _ (by simp), List.append_assoc]
      congr 1
      exact (List.splitOn_append_cons_self_of_not_mem clear _).symm
    · next ne =>
      split
      · next ret => rw [ih lines clear, ret]; rfl
      · next kept =>
        rw [ih lines (by simp [clear, Ne.symm ne]), List.filter_cons_of_pos (by simpa using kept)]
        simp only [List.append_assoc, List.singleton_append]

theorem splitLines_def :
    splitLines body =
      if (body.foldl readChar ([], [])).2 ≠ [] ∨ body.getLast? = some '\n' then
        (body.filter (· != '\r')).splitOn '\n'
      else (body.foldl readChar ([], [])).1 := by
  have pieces := @foldl_readChar body [] [] (by simp)
  rw [nil_append, nil_append] at pieces
  rw [← pieces]
  rfl

theorem splitLines_isPrefix : splitLines body <+: (body.filter (· != '\r')).splitOn '\n' := by
  have pieces := @foldl_readChar body [] [] (by simp)
  rw [nil_append, nil_append] at pieces
  rw [splitLines_def]
  split
  · exact List.prefix_rfl
  · rw [← pieces]
    exact List.prefix_append _ _

theorem splitLines_eq {body : Wire} (clear : '\r' ∉ body) (nonempty : body ≠ []) :
    splitLines body = body.splitOn '\n' := by
  have kept : body.filter (· != '\r') = body := by
    apply List.filter_eq_self.2
    intro ch mem
    have ne : ch ≠ '\r' := fun ret => clear (ret ▸ mem)
    simpa using ne
  rw [splitLines_def, kept, if_pos]
  -- The last character is a newline or stays in the last line.
  obtain ⟨front, last, rfl⟩ := (List.eq_nil_or_concat' body).resolve_left nonempty
  by_cases newline : last = '\n'
  · exact .inr (by simp [newline])
  · have ne : last ≠ '\r' := fun ret => clear (by simp [ret])
    exact .inl (by simp [readChar, newline, ne])

theorem mem_splitLines {body line : Wire} (mem : line ∈ splitLines body) :
    '\n' ∉ line ∧ '\r' ∉ line := by
  have among := (splitLines_isPrefix body).subset mem
  refine ⟨Misc.not_mem_of_mem_splitOn among, fun ret => ?_⟩
  have kept := Misc.mem_of_mem_splitOn among ret
  simp at kept

theorem weight_splitLines : weight (splitLines body) ≤ body.length + 1 :=
  calc weight (splitLines body)
      ≤ weight ((body.filter (· != '\r')).splitOn '\n') :=
        Misc.weight_le_of_sublist (splitLines_isPrefix body).sublist
    _ = (body.filter (· != '\r')).length + 1 := Misc.weight_splitOn _ _
    _ ≤ body.length + 1 := Nat.succ_le_succ (List.length_filter_le _ _)

/-! ## Names and rows -/

def linesOf (names : List String) (rows : List (List Value)) : List Wire :=
  joinTabs (names.map String.toList) :: rows.map rowLine

theorem joinTabs_plain {cells : List Wire} (plain : ∀ cell ∈ cells, Plain cell) :
    '\n' ∉ joinTabs cells ∧ '\r' ∉ joinTabs cells := by
  constructor
  all_goals
    intro mem
    obtain tab | ⟨cell, among, inside⟩ := Misc.mem_intercalate mem
    · exact absurd tab (by decide)
  · exact (plain cell among).2.1 inside
  · exact (plain cell among).2.2 inside

theorem plain_of_mem_splitTabs {line cell : Wire} (clear : '\n' ∉ line ∧ '\r' ∉ line)
    (mem : cell ∈ splitTabs line) : Plain cell := by
  rw [splitTabs_eq] at mem
  exact ⟨Misc.not_mem_of_mem_splitOn mem, fun isIn => clear.1 (Misc.mem_of_mem_splitOn mem isIn),
    fun isIn => clear.2 (Misc.mem_of_mem_splitOn mem isIn)⟩

theorem joinTabs_readNames : joinTabs (readNames line) = line := by
  rw [readNames]
  split
  · next blank => rw [← joinTabs_splitTabs line, blank]; rfl
  · exact joinTabs_splitTabs line

theorem readNames_ne : readNames line ≠ [[]] := by
  rw [readNames]
  split
  · simp
  · assumption

theorem mem_splitTabs_of_mem_readNames {line name : Wire} (mem : name ∈ readNames line) :
    name ∈ splitTabs line := by
  rw [readNames] at mem
  split at mem
  · simp at mem
  · exact mem

theorem readNames_joinTabs {names : List Wire} (plain : ∀ name ∈ names, Plain name)
    (apart : names ≠ [[]]) : readNames (joinTabs names) = names := by
  cases names with
  | nil => rfl
  | cons name names => rw [readNames, splitTabs_joinTabs plain (by simp), if_neg apart]

theorem rowLine_decoded : rowLine ((splitTabs line).map decodeWireCell) = line := by
  have cells : ((splitTabs line).map decodeWireCell).map encodeWireCell = splitTabs line := by
    simp [map_map, comp_def, encodeCell_decodeWireCell]
  rw [rowLine, cells, joinTabs_splitTabs]

theorem rowLine_onWire (row : List Value) : rowLine (row.map onWire) = rowLine row := by
  simp [rowLine, map_map, comp_def]

theorem linesOf_onWire (names : List String) (rows : List (List Value)) :
    linesOf names (rows.map (fun row => row.map onWire)) = linesOf names rows := by
  simp [linesOf, map_map, comp_def, rowLine_onWire]

theorem legible_read {header : Wire} {lines : List Wire}
    (clear : ∀ line ∈ header :: lines, '\n' ∉ line ∧ '\r' ∉ line) :
    Legible ((readNames header).map ofList) (readRows (readNames header) lines) where
  names_plain := by
    intro name mem
    obtain ⟨text, among, rfl⟩ := mem_map.1 mem
    rw [String.toList_ofList]
    exact plain_of_mem_splitTabs (clear header (by simp)) (mem_splitTabs_of_mem_readNames among)
  names_ne := by
    intro blank
    apply readNames_ne header
    have texts := congrArg (List.map toList) blank
    simpa [map_map, comp_def] using texts
  rows_ne := by
    intro row mem
    obtain ⟨line, -, rfl⟩ := mem_map.1 mem
    simpa using splitTabs_ne_nil line
  cells_plain := by
    intro row mem val inside given
    obtain ⟨line, among, rfl⟩ := mem_map.1 mem
    obtain ⟨cell, cells, rfl⟩ := mem_map.1 inside
    have plain := plain_of_mem_splitTabs
      (clear line (List.mem_cons_of_mem _ (List.mem_of_mem_filter among))) cells
    rw [← encodeCell_of_not_null given, encodeCell_decodeWireCell]
    refine ⟨plain, fun marker => ?_⟩
    rw [marker] at given
    exact absurd given (by decide)
  rows_visible := by
    intro none row mem
    obtain ⟨line, among, rfl⟩ := mem_map.1 mem
    rw [rowLine_decoded]
    have shown := (List.mem_filter.1 among).2
    rw [List.map_eq_nil_iff] at none
    simpa [none] using shown

theorem weight_read (header : Wire) (lines : List Wire) :
    weight (linesOf ((readNames header).map ofList) (readRows (readNames header) lines)) ≤
      weight (header :: lines) := by
  have names : ((readNames header).map ofList).map toList = readNames header := by
    simp [map_map, comp_def]
  have rows : (readRows (readNames header) lines).map rowLine =
      lines.filter (fun line => !(line.isEmpty && (readNames header).isEmpty)) := by
    simp [readRows, map_map, comp_def, rowLine_decoded]
  rw [linesOf, names, joinTabs_readNames, rows]
  exact Misc.weight_le_of_sublist (List.filter_sublist.cons_cons header)

/-! ## Results -/

theorem parseResult_ok :
    parseQueryResult ("OK|".toList ++ body) =
      match splitLines (stripEnd body) with
      | [] => .successResult "OK"
      | header :: lines =>
        { QueryResult.successResult "OK" with
          columnNames := (readNames header).map ofList
          rows := readRows (readNames header) lines } := rfl

theorem legible_parseResult (message : Wire) :
    Legible (parseQueryResult message).columnNames (parseQueryResult message).rows := by
  have empty : Legible [] [] := by constructor <;> simp
  unfold parseQueryResult
  split
  · exact empty
  split
  · exact empty
  split
  · exact empty
  · next header lines split =>
    exact legible_read (fun line mem => mem_splitLines (split ▸ mem))

theorem weight_parseResult :
    weight (linesOf (parseQueryResult ("OK|".toList ++ body)).columnNames
      (parseQueryResult ("OK|".toList ++ body)).rows) ≤ (stripEnd body).length + 1 := by
  rw [parseResult_ok]
  split
  · show 1 ≤ _
    omega
  · next header lines split =>
    calc weight (linesOf ((readNames header).map ofList) (readRows (readNames header) lines))
        ≤ weight (header :: lines) := weight_read header lines
      _ = weight (splitLines (stripEnd body)) := by rw [split]
      _ ≤ (stripEnd body).length + 1 := weight_splitLines _

section Round

variable {names : List String} {rows : List (List Value)}

variable (legible : Legible names rows)
include legible

theorem Legible.cell_plain (mem : row ∈ rows) (isIn : val ∈ row) : Plain (encodeWireCell val) := by
  cases null : val.isNull with
  | true =>
    rw [Value.isNull_eq_true.1 null]
    exact ⟨by decide, by decide, by decide⟩
  | false =>
    rw [encodeCell_of_not_null null]
    exact (legible.cells_plain row mem val isIn null).1

theorem Legible.clear : ∀ line ∈ linesOf names rows, '\n' ∉ line ∧ '\r' ∉ line := by
  intro line mem
  obtain rfl | mem := List.mem_cons.1 mem
  · apply joinTabs_plain
    intro cell among
    obtain ⟨name, here, rfl⟩ := mem_map.1 among
    exact legible.names_plain name here
  · obtain ⟨row, here, rfl⟩ := mem_map.1 mem
    apply joinTabs_plain
    intro cell among
    obtain ⟨val, isIn, rfl⟩ := mem_map.1 among
    exact legible.cell_plain here isIn

theorem Legible.text_clear : '\r' ∉ ['\n'].intercalate (linesOf names rows) := by
  intro mem
  obtain newline | ⟨line, among, isIn⟩ := Misc.mem_intercalate mem
  · exact absurd newline (by decide)
  · exact (legible.clear line among).2 isIn

theorem Legible.readNames :
    (Protocol.readNames (joinTabs (names.map toList))).map ofList = names := by
  rw [readNames_joinTabs]
  · simp [map_map, comp_def]
  · intro text mem
    obtain ⟨name, here, rfl⟩ := mem_map.1 mem
    exact legible.names_plain name here
  · intro blank
    apply legible.names_ne
    have texts := congrArg (List.map ofList) blank
    simpa [map_map, comp_def] using texts

theorem Legible.cells (mem : row ∈ rows) :
    (splitTabs (rowLine row)).map decodeWireCell = row.map onWire := by
  rw [rowLine, splitTabs_joinTabs, map_map]
  · apply List.map_congr_left
    intro val isIn
    exact decodeWireCell_encodeCell (fun given => (legible.cells_plain row mem val isIn given).2)
  · intro cell among
    obtain ⟨val, isIn, rfl⟩ := mem_map.1 among
    exact legible.cell_plain mem isIn
  · simpa using legible.rows_ne row mem

theorem Legible.readRows :
    Protocol.readRows (Protocol.readNames (joinTabs (names.map toList))) (rows.map rowLine) =
      rows.map (fun row => row.map onWire) := by
  have shown : (rows.map rowLine).filter (fun line =>
      !(line.isEmpty && (Protocol.readNames (joinTabs (names.map toList))).isEmpty)) =
      rows.map rowLine := by
    apply List.filter_eq_self.2
    intro line mem
    obtain ⟨row, here, rfl⟩ := mem_map.1 mem
    by_cases none : names = []
    · simp [legible.rows_visible none row here]
    · have some : (Protocol.readNames (joinTabs (names.map toList))) ≠ [] := by
        intro blank
        apply none
        rw [← legible.readNames, blank]
        rfl
      simp [some]
  rw [Protocol.readRows, shown, map_map]
  apply List.map_congr_left
  intro row mem
  exact legible.cells mem

theorem Legible.parse {body : Wire}
    (text : stripEnd body = ['\n'].intercalate (linesOf names rows)) :
    parseQueryResult ("OK|".toList ++ body) =
      ⟨true, "OK", 0, rows.map (fun row => row.map onWire), names⟩ := by
  have lines : linesOf names rows ≠ [] := by simp [linesOf]
  rw [parseResult_ok, text]
  by_cases blank : ['\n'].intercalate (linesOf names rows) = []
  · -- No column and no row: the body is empty.
    have total := Misc.weight_eq_of_ne_nil '\n' lines
    rw [blank, linesOf, Misc.weight_cons, List.length_nil] at total
    have noRows : rows = [] := by
      cases rows with
      | nil => rfl
      | cons row rows => rw [List.map_cons, Misc.weight_cons] at total; omega
    have noHeader : joinTabs (names.map toList) = [] := List.length_eq_zero_iff.1 (by omega)
    have noNames : names = [] := by rw [← legible.readNames, noHeader]; rfl
    rw [blank, noRows, noNames]
    rfl
  · rw [splitLines_eq legible.text_clear blank,
      List.splitOn_intercalate _ (fun line mem => (legible.clear line mem).1) lines]
    simp only [linesOf, legible.readNames, legible.readRows]
    rfl

end Round

theorem formatResult_ok {res : QueryResult} (success : res.success = true) :
    formatQueryResult res =
      "OK|".toList ++ (['\n'].intercalate (linesOf res.columnNames res.rows) ++ ['\n']) := by
  rw [linesOf, ← Misc.flatMap_append_eq, formatQueryResult, formatResponse, success]
  cases rows : res.rows with
  | nil => simp
  | cons row more => simp [rowLine, List.flatMap_map]

theorem stripEnd_line {text : Wire} (clear : '\r' ∉ text) : stripEnd (text ++ ['\n']) = text := by
  have last : text.getLast? ≠ some '\r' := fun ret => clear (List.mem_of_getLast? ret)
  simp [stripEnd, last]

theorem toString_onWire (given : val.isNull = false) : (onWire val).toString = val.toString := by
  rw [onWire, given]
  rfl

theorem legible_of_onWire {names : List String} {rows : List (List Value)}
    (legible : Legible names (rows.map (fun row => row.map onWire))) : Legible names rows where
  names_plain := legible.names_plain
  names_ne := legible.names_ne
  rows_ne := by
    intro row mem
    simpa using legible.rows_ne (row.map onWire) (mem_map_of_mem mem)
  cells_plain := by
    intro row mem val inside given
    have cell := legible.cells_plain (row.map onWire) (mem_map_of_mem mem) (onWire val)
      (mem_map_of_mem inside) (by rw [isNull_onWire, given])
    rwa [toString_onWire given] at cell
  rows_visible := by
    intro none row mem
    have shown := legible.rows_visible none (row.map onWire) (mem_map_of_mem mem)
    rwa [rowLine_onWire] at shown

theorem Legible.parse_format {res : QueryResult} (success : res.success = true)
    (legible : Legible res.columnNames res.rows) :
    parseQueryResult (formatQueryResult res) =
      ⟨true, "OK", 0, res.rows.map (fun row => row.map onWire), res.columnNames⟩ := by
  rw [formatResult_ok success]
  exact legible.parse (stripEnd_line legible.text_clear)

/-! ## Results of texts -/

/-- A name the lexer reads as one word. -/
def IsIdentifier (name : String) : Prop :=
  name ≠ "" ∧ name.toList.all Lexer.isAlphaNumeric = true

theorem IsIdentifier.plain {name : String} (identifier : IsIdentifier name) : Plain name.toList := by
  refine ⟨fun mem => ?_, fun mem => ?_, fun mem => ?_⟩
  all_goals exact absurd (List.all_eq_true.1 identifier.2 _ mem) (by decide)

theorem map_onWire_of_texts
    (texts : ∀ val ∈ row, val = .null ∨ ∃ s, val = .string s) : row.map onWire = row := by
  conv_rhs => rw [← List.map_id row]
  apply List.map_congr_left
  intro val isIn
  obtain rfl | ⟨s, rfl⟩ := texts val isIn
  · rfl
  · rfl

/-- **The round trip of texts**: a result of NULLs and texts under at least one column comes back
    as it was exactly when no row is without cells and no text has a tab, a newline or a carriage
    return in it or is the NULL marker. -/
theorem texts_round_trip_iff {result : QueryResult} (success : result.success = true)
    (columns : result.columnNames ≠ [])
    (identifiers : ∀ name ∈ result.columnNames, IsIdentifier name)
    (texts : ∀ row ∈ result.rows, ∀ val ∈ row, val = .null ∨ ∃ s, val = .string s) :
    ((parseQueryResult (formatQueryResult result)).columnNames = result.columnNames ∧
      (parseQueryResult (formatQueryResult result)).rows = result.rows) ↔
      ∀ row ∈ result.rows, row ≠ [] ∧
        ∀ s, .string s ∈ row → Plain s.toList ∧ s ≠ "\\N" := by
  have same : result.rows.map (fun row => row.map onWire) = result.rows := by
    conv_rhs => rw [← List.map_id result.rows]
    apply List.map_congr_left
    intro row member
    exact map_onWire_of_texts (texts row member)
  constructor
  · rintro ⟨names, rows⟩ row member
    have legible := legible_parseResult (formatQueryResult result)
    rw [names, rows] at legible
    refine ⟨legible.rows_ne row member, fun s inside => ?_⟩
    obtain ⟨plain, apart⟩ := legible.cells_plain row member (.string s) inside rfl
    exact ⟨plain, fun marker => apart (by rw [marker]; rfl)⟩
  · intro condition
    have legible : Legible result.columnNames result.rows := {
      names_plain := fun name member => (identifiers name member).plain
      names_ne := fun blank => (identifiers "" (by simp [blank])).1 rfl
      rows_ne := fun row member => (condition row member).1
      cells_plain := by
        intro row member val inside given
        obtain rfl | ⟨s, rfl⟩ := texts row member val inside
        · exact absurd given (by decide)
        · obtain ⟨plain, apart⟩ := (condition row member).2 s inside
          exact ⟨plain, fun marker => apart (String.toList_inj.1 marker)⟩
      rows_visible := fun none => absurd none columns }
    rw [legible.parse_format success, same]
    exact ⟨rfl, rfl⟩

/-- NULL, the empty text and the text `NULL` stay apart. -/
theorem null_and_texts_round_trip :
    ((parseQueryResult (formatQueryResult
        ⟨true, "SELECT OK", 0, [[.null, .string "", .string "NULL"]], ["a", "b", "c"]⟩)).columnNames =
          ["a", "b", "c"] ∧
      (parseQueryResult (formatQueryResult
        ⟨true, "SELECT OK", 0, [[.null, .string "", .string "NULL"]], ["a", "b", "c"]⟩)).rows =
          [[.null, .string "", .string "NULL"]]) := by
  refine (texts_round_trip_iff rfl (by decide) ?_ ?_).2 ?_
  · intro name member
    simp only [List.mem_cons, List.not_mem_nil, or_false] at member
    obtain rfl | rfl | rfl := member
    all_goals exact ⟨by decide, by decide⟩
  · simp
  · simp only [forall_eq, List.mem_cons, reduceCtorEq, false_or,
      Value.string.injEq, List.not_mem_nil, or_false]
    refine ⟨by decide, ?_⟩
    rintro s (rfl | rfl)
    all_goals exact ⟨⟨by decide, by decide, by decide⟩, by decide⟩

/-- The text `\N` comes back as NULL, and a text with a tab as two cells. -/
theorem marker_and_tab_lost :
    (parseQueryResult (formatQueryResult
        ⟨true, "SELECT OK", 0, [[.string "\\N"]], ["s"]⟩)).rows = [[.null]] ∧
      (parseQueryResult (formatQueryResult
        ⟨true, "SELECT OK", 0, [[.string "a\tb"]], ["s"]⟩)).rows = [[.string "a", .string "b"]] := by
  decide

end NobugDb.Protocol
