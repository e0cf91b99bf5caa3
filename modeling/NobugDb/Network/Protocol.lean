import NobugDb.Core.Database

/-!
# The text protocol

Requests and results as text (`protocol.cc:1-189`). A request is a type, a bar and its data; a result
is a line of column names and a line for each row, with tabs between the cells. Nothing is escaped:
a cell is written as it is, and NULL is written `\N`.

A `std::string` on the wire is the list of its bytes, each a character.
-/

namespace NobugDb

/-- A `std::string` on the wire. -/
abbrev Wire := List Char

namespace Protocol

structure Request where
  type : Wire
  data : Wire
  deriving DecidableEq

structure Response where
  success : Bool
  message : Wire
  columnNames : List Wire
  rows : List (List Wire)

/-! ## Cells -/

def kWireNull : Wire := "\\N".toList

/-- The loop of `split_tabs` with its current part. -/
def splitTabsFrom (current : Wire) : Wire → List Wire
  | [] => [current]
  | ch :: line =>
    if ch = '\t' then current :: splitTabsFrom [] line else splitTabsFrom (current ++ [ch]) line

/-- `split_tabs` (`protocol.cc:14-27`). -/
def splitTabs (line : Wire) : List Wire := splitTabsFrom [] line

/-- `encode_wire_cell` (`protocol.cc:29-34`). -/
def encodeWireCell (val : Value) : Wire := if val.isNull then kWireNull else val.toString.toList

/-- `decode_wire_cell` (`protocol.cc:36-41`). -/
def decodeWireCell (cell : Wire) : Value :=
  if cell = kWireNull then .null else .string (String.ofList cell)

/-! ## Requests -/

/-- The data of a request or an error without one trailing newline. -/
def popNewline (data : Wire) : Wire := if data.getLast? = some '\n' then data.dropLast else data

/-- `Protocol::parse_request` (`protocol.cc:45-57`). -/
def parseRequest (message : Wire) : Except String Request :=
  if '|' ∈ message then
    .ok ⟨message.takeWhile (· != '|'), popNewline ((message.dropWhile (· != '|')).drop 1)⟩
  else .error "Invalid request format"

/-- A request as a client sends it (`protocol.h:12-13`). -/
def Request.text (request : Request) : Wire := request.type ++ '|' :: (request.data ++ ['\n'])

/-- `Protocol::format_rpc_query` (`protocol.cc:107-110`). -/
def formatRpcQuery (rpcSecret sql : Wire) : Wire :=
  "RPC_QUERY".toList ++ '|' :: (rpcSecret ++ '|' :: (sql ++ ['\n']))

/-- `Protocol::split_rpc_query` (`protocol.cc:112-124`): the secret and the SQL text. -/
def splitRpcQuery (data : Wire) : Option (Wire × Wire) :=
  if '|' ∈ data then
    let secret := data.takeWhile (· != '|')
    let sql := (data.dropWhile (· != '|')).drop 1
    if secret = [] ∨ sql = [] then none else some (secret, sql)
  else none

/-! ## Results -/

/-- Cells with tabs between them. -/
def joinTabs (cells : List Wire) : Wire := ['\t'].intercalate cells

/-- `Protocol::format_response` (`protocol.cc:59-88`). -/
def formatResponse (response : Response) : Wire :=
  if !response.success then "ERROR|".toList ++ response.message ++ ['\n']
  else
    "OK|".toList ++ joinTabs response.columnNames ++
      (if response.rows.isEmpty then ['\n']
       else '\n' :: response.rows.flatMap (fun row => joinTabs row ++ ['\n']))

/-- `Protocol::format_query_result` (`protocol.cc:90-105`). -/
def formatQueryResult (result : QueryResult) : Wire :=
  formatResponse
    { success := result.success
      message := result.message.toList
      columnNames := result.columnNames.map String.toList
      rows := result.rows.map (fun row => row.map encodeWireCell) }

/-- The end of a body: at most one newline or carriage return, and then a carriage return
    (`protocol.cc:137-144`). -/
def stripEnd (body : Wire) : Wire :=
  let body :=
    if body.getLast? = some '\n' ∨ body.getLast? = some '\r' then body.dropLast else body
  if body.getLast? = some '\r' then body.dropLast else body

/-- One character in the loop over the body: the lines so far and the current one. -/
def readChar (state : List Wire × Wire) (ch : Char) : List Wire × Wire :=
  if ch = '\n' then (state.1 ++ [state.2], [])
  else if ch = '\r' then state
  else (state.1, state.2 ++ [ch])

/-- The lines of a body (`protocol.cc:149-163`). -/
def splitLines (body : Wire) : List Wire :=
  let (lines, current) := body.foldl readChar ([], [])
  if current ≠ [] ∨ body.getLast? = some '\n' then lines ++ [current] else lines

/-- The column names of the first line (`protocol.cc:167-170`). -/
def readNames (line : Wire) : List Wire :=
  let names := splitTabs line
  if names = [[]] then [] else names

/-- The rows of the other lines (`protocol.cc:171-184`). -/
def readRows (names : List Wire) (lines : List Wire) : List (List Value) :=
  (lines.filter (fun line => !(line.isEmpty && names.isEmpty))).map
    (fun line => (splitTabs line).map decodeWireCell)

/-- `Protocol::parse_query_result` (`protocol.cc:126-187`). -/
def parseQueryResult (message : Wire) : QueryResult :=
  if "ERROR|".toList.isPrefixOf message then
    .errorResult (String.ofList (popNewline (message.drop 6)))
  else if !"OK|".toList.isPrefixOf message then .errorResult "invalid RPC response"
  else
    -- An empty body, which the source returns for first, has no lines either.
    match splitLines (stripEnd (message.drop 3)) with
    | [] => .successResult "OK"
    | header :: lines =>
      { QueryResult.successResult "OK" with
        columnNames := (readNames header).map String.ofList
        rows := readRows (readNames header) lines }

end Protocol

end NobugDb
