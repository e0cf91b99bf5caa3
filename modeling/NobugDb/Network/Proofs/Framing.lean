import NobugDb.Network.Connection
import NobugDb.Network.Proofs.WireRoundTrip

/-!
# Messages and chunks

Neither end of a connection puts chunks together or takes them apart. The server handles the
requests it was sent exactly when each came as a chunk of its own, and the coordinator gets a
worker's rows exactly when they are legible and the first chunk has all of the reply but perhaps a
newline at its end.
-/

namespace NobugDb

open Protocol

/-! ## Requests -/

variable {text : Wire}

namespace Protocol

variable {request : Request} {message : Wire}

theorem popNewline_append (data : Wire) : popNewline (data ++ ['\n']) = data := by
  simp [popNewline]

theorem popNewline_cases (data : Wire) :
    data = popNewline data ++ ['\n'] ∨ (data = popNewline data ∧ data.getLast? ≠ some '\n') := by
  rw [popNewline]
  split
  · next newline => exact .inl (List.dropLast_append_getLast? _ newline).symm
  · next ne => exact .inr ⟨rfl, ne⟩

theorem ne_bar_of_mem (clear : '|' ∉ text) : ∀ c ∈ text, (c != '|') = true := by
  intro c mem
  simpa using fun bar : c = '|' => clear (bar ▸ mem)

theorem parseRequest_bar {type data : Wire} (clear : '|' ∉ type) :
    parseRequest (type ++ '|' :: data) = .ok ⟨type, popNewline data⟩ := by
  rw [parseRequest, if_pos (by simp), List.takeWhile_append_of_pos (ne_bar_of_mem clear),
    List.dropWhile_append_of_pos (ne_bar_of_mem clear)]
  simp

theorem parseRequest_text (clear : '|' ∉ request.type) : parseRequest request.text = .ok request := by
  rw [Request.text, parseRequest_bar clear, popNewline_append]

/-- The bar that ends the secret is found exactly when the secret has none. -/
theorem rpc_query_split_iff (secret sql : Wire) (isSecret : secret ≠ []) (isSql : sql ≠ []) :
    ∃ request, parseRequest (formatRpcQuery secret sql) = .ok request ∧
      (splitRpcQuery request.data = some (secret, sql) ↔ '|' ∉ secret) := by
  have text : ∀ type : Wire, type ++ '|' :: (secret ++ '|' :: (sql ++ ['\n'])) =
      Request.text ⟨type, secret ++ '|' :: sql⟩ := by simp [Request.text]
  have clear : '|' ∉ "RPC_QUERY".toList := by decide
  refine ⟨_, text _ ▸ parseRequest_text clear, ?_⟩
  simp only [splitRpcQuery, List.mem_append, List.mem_cons, true_or, or_true, if_true]
  constructor
  · intro cut bar
    split at cut
    · cases cut
    · -- The first of the two parts ends before any bar.
      have first : (secret ++ '|' :: sql).takeWhile (· != '|') = secret :=
        congrArg Prod.fst (Option.some.inj cut)
      rw [← first] at bar
      simpa using List.mem_takeWhile_imp bar
  · intro clear
    rw [List.takeWhile_append_of_pos (ne_bar_of_mem clear),
      List.dropWhile_append_of_pos (ne_bar_of_mem clear)]
    simp [isSecret, isSql]

theorem plain_secret_split :
    ∃ request, parseRequest (formatRpcQuery "key".toList "SELECT 'a|b'".toList) = .ok request ∧
      (splitRpcQuery request.data = some ("key".toList, "SELECT 'a|b'".toList) ↔
        '|' ∉ "key".toList) :=
  rpc_query_split_iff _ _ (by decide) (by decide)

/-- A secret with a bar is cut there, and its end is taken for SQL. -/
theorem barred_secret_cut :
    ∃ request, parseRequest (formatRpcQuery "k|y".toList "SELECT 1".toList) = .ok request ∧
      splitRpcQuery request.data = some ("k".toList, "y|SELECT 1".toList) :=
  ⟨⟨"RPC_QUERY".toList, "k|y|SELECT 1".toList⟩, by decide, by decide⟩

theorem append_newline_eq_text : message ++ ['\n'] = request.text ↔
    message = request.type ++ '|' :: request.data := by
  constructor
  · intro ended
    have texts : message ++ ['\n'] = (request.type ++ '|' :: request.data) ++ ['\n'] := by
      simpa [Request.text] using ended
    exact List.append_cancel_right texts
  · rintro rfl
    simp [Request.text]

/-- The messages that are read as this request: its newline may be missing. -/
theorem parseRequest_eq_ok_iff (clear : '|' ∉ request.type) :
    parseRequest message = .ok request ↔ message = request.text ∨
      (message ++ ['\n'] = request.text ∧ request.data.getLast? ≠ some '\n') := by
  constructor
  · intro parsed
    by_cases bar : '|' ∈ message
    · obtain ⟨type, data, rfl, before⟩ := List.eq_append_cons_of_mem bar
      rw [parseRequest_bar before] at parsed
      cases parsed
      obtain ended | ⟨eq, last⟩ := popNewline_cases data
      · left
        rw [Request.text, ← ended]
      · right
        rw [append_newline_eq_text, ← eq]
        exact ⟨rfl, last⟩
    · rw [parseRequest, if_neg bar] at parsed
      cases parsed
  · rintro (rfl | ⟨ended, last⟩)
    · exact parseRequest_text clear
    · rw [append_newline_eq_text.1 ended, parseRequest_bar clear, popNewline, if_neg last]

theorem exists_bar_of_parsed (clear : '|' ∉ request.type)
    (parsed : parseRequest message = .ok request) : ∃ data, message = request.type ++ '|' :: data := by
  obtain eq | ⟨ended, -⟩ := (parseRequest_eq_ok_iff clear).1 parsed
  · exact ⟨_, eq⟩
  · exact ⟨_, append_newline_eq_text.1 ended⟩

end Protocol

namespace Connection

variable {requests : List Request} {chunks : List Wire}

/-- The requests a client sends until it is done: QUIT is the last the server answers. -/
def upToQuit : List Request → List Request
  | [] => []
  | request :: requests =>
    request :: (if handlerOf request = .quit then [] else upToQuit requests)

/-- Every request comes as a chunk of its own. What comes after QUIT is not read, and so the newline
    of QUIT need not be in its chunk. -/
def Framed : List Request → List Wire → Prop
  | [], _ => True
  | _ :: _, [] => False
  | request :: requests, chunk :: chunks =>
    if handlerOf request = .quit then
      chunk = request.text ∨ (chunk ++ ['\n'] = request.text ∧ request.data.getLast? ≠ some '\n')
    else chunk = request.text ∧ Framed requests chunks

theorem run_cons {chunk : Wire} (nonempty : chunk ≠ []) (chunks : List Wire) :
    run (chunk :: chunks) = parseRequest chunk ::
      (if staysActive (parseRequest chunk) then run chunks else []) := by
  rw [run, if_neg nonempty]

theorem text_ne_nil (request : Request) : request.text ≠ [] := by
  simp [Request.text]

/-- A newline that was left over spoils the next request, or is taken for one. -/
theorem run_ne_of_newline (clear : ∀ request ∈ requests, '|' ∉ request.type)
    (left : chunks.flatten = '\n' :: requests.flatMap Request.text)
    (nonempty : ∀ chunk ∈ chunks, chunk ≠ []) : run chunks ≠ (upToQuit requests).map .ok := by
  intro eq
  cases chunks with
  | nil => simp at left
  | cons chunk chunks =>
    rw [run_cons (nonempty chunk (by simp))] at eq
    cases requests with
    | nil => cases eq
    | cons request requests =>
      have parsed : parseRequest chunk = .ok request := (List.cons.inj eq).1
      have here : '|' ∉ request.type := clear request (by simp)
      obtain ⟨data, rfl⟩ := exists_bar_of_parsed here parsed
      -- Up to the first bar there is the type on one side, and a newline before it on the other.
      have both := congrArg parseRequest left
      rw [List.flatten_cons, List.append_assoc, List.cons_append, parseRequest_bar here,
        List.flatMap_cons, Request.text, List.append_assoc, List.cons_append, ← List.cons_append,
        parseRequest_bar (by simp [here])] at both
      have types : request.type = '\n' :: request.type := congrArg Request.type (Except.ok.inj both)
      have lengths := congrArg List.length types
      simp at lengths

/-- **Framing**: the server handles exactly the requests it was sent, each once and in order, when
    and only when each of them came as a chunk of its own. -/
theorem requests_handled_iff (clear : ∀ request ∈ requests, '|' ∉ request.type)
    (received : Received room chunks (requests.flatMap Request.text)) :
    run chunks = (upToQuit requests).map .ok ↔ Framed requests chunks := by
  obtain ⟨whole, nonempty, -⟩ := received
  induction requests generalizing chunks with
  | nil =>
    have none : chunks = [] := by
      cases chunks with
      | nil => rfl
      | cons chunk chunks =>
        have blank : chunk = [] := (List.append_eq_nil_iff.1 whole).1
        exact absurd blank (nonempty chunk (by simp))
    simp [none, run, upToQuit, Framed]
  | cons request requests ih =>
    cases chunks with
    | nil => exact absurd (List.append_eq_nil_iff.1 whole.symm).1 (text_ne_nil request)
    | cons chunk chunks =>
      have later : ∀ chunk ∈ chunks, chunk ≠ [] :=
        fun chunk member => nonempty chunk (List.mem_cons_of_mem _ member)
      have others : ∀ request ∈ requests, '|' ∉ request.type :=
        fun request member => clear request (List.mem_cons_of_mem _ member)
      have here : '|' ∉ request.type := clear request (by simp)
      rw [run_cons (nonempty chunk (by simp)), upToQuit, List.map_cons, List.cons.injEq, Framed]
      rw [List.flatten_cons, List.flatMap_cons] at whole
      by_cases quit : handlerOf request = .quit
      · rw [if_pos quit, if_pos quit, ← parseRequest_eq_ok_iff here]
        refine and_iff_left_of_imp fun parsed => ?_
        rw [parsed]
        simp [staysActive, quit]
      · rw [if_neg quit, if_neg quit]
        constructor
        · rintro ⟨parsed, handled⟩
          rw [parsed, if_pos (by simpa [staysActive] using quit)] at handled
          obtain same | ⟨ended, -⟩ := (parseRequest_eq_ok_iff here).1 parsed
          · rw [same] at whole
            exact ⟨same, (ih others (List.append_cancel_left whole) later).1 handled⟩
          · -- The newline of the request is in the next chunk.
            rw [← ended, List.append_assoc] at whole
            exact absurd handled
              (run_ne_of_newline others (List.append_cancel_left whole) later)
        · rintro ⟨rfl, framed⟩
          rw [parseRequest_text here, if_pos (by simpa [staysActive] using quit)]
          exact ⟨rfl, (ih others (List.append_cancel_left whole) later).2 framed⟩

theorem two_requests_handled :
    run ["PING|\n".toList, "QUERY|SELECT 1\n".toList] =
      [.ok ⟨"PING".toList, []⟩, .ok ⟨"QUERY".toList, "SELECT 1".toList⟩] := by
  have received : Received room ["PING|\n".toList, "QUERY|SELECT 1\n".toList]
      ([⟨"PING".toList, []⟩, ⟨"QUERY".toList, "SELECT 1".toList⟩].flatMap Request.text) :=
    ⟨by decide, by decide, by decide⟩
  refine (requests_handled_iff (by decide) received).2 ?_
  exact ⟨rfl, rfl, trivial⟩

/-- Two requests in one chunk are handled as one. -/
theorem joined_requests_handled_as_one :
    Received room ["PING|\nPING|\n".toList]
      ([⟨"PING".toList, []⟩, ⟨"PING".toList, []⟩].flatMap Request.text) ∧
    run ["PING|\nPING|\n".toList] = [.ok ⟨"PING".toList, "\nPING|".toList⟩] :=
  ⟨⟨by decide, by decide, by decide⟩, by decide⟩

end Connection

/-! ## Replies -/

namespace TcpRpcClient

/-- All of a worker's result, with each value as its text, or an error. -/
def Delivered (worker result : QueryResult) : Prop :=
  result.success = false ∨
    (result.columnNames = worker.columnNames ∧ result.rows = worker.rows.map (fun row => row.map onWire))

/-- A chunk has all of a reply but perhaps its last newline, which must not be the second one. -/
def Arrived (chunk reply : Wire) : Prop :=
  chunk = reply ∨ (chunk ++ ['\n'] = reply ∧ chunk.getLast? ≠ some '\n')

variable {worker : QueryResult} {chunks : List Wire}

theorem success_parseResult {message : Wire} :
    (parseQueryResult message).success = true ↔ "OK|".toList <+: message := by
  constructor
  · intro success
    rw [parseQueryResult] at success
    split at success
    · cases success
    · split at success
      · cases success
      · next ok => simpa using ok
  · rintro ⟨body, rfl⟩
    rw [parseResult_ok]
    split <;> rfl

theorem success_query (ep : ShardEndpoint) :
    (executeQuery ep chunks).success = true ↔ "OK|".toList <+: chunks.headD [] := by
  have raw : tcpExchange chunks = chunks.headD [] := by cases chunks <;> rfl
  rw [executeQuery, raw]
  split
  · next blank =>
    rw [List.isEmpty_iff.1 blank]
    constructor
    · intro success
      cases success
    · intro ok
      exact absurd (List.prefix_nil.1 ok) (by decide)
  · exact success_parseResult

variable {body : Wire}

theorem query_ok (ep : ShardEndpoint) (fst : chunks.headD [] = "OK|".toList ++ body) :
    executeQuery ep chunks = parseQueryResult ("OK|".toList ++ body) := by
  have raw : tcpExchange chunks = chunks.headD [] := by cases chunks <;> rfl
  rw [executeQuery, raw, fst]
  rfl

theorem not_ok_of_failed (fail : worker.success = false) :
    ¬ "OK|".toList <+: formatQueryResult worker := by
  rw [formatQueryResult, formatResponse, fail]
  rintro ⟨rest, texts⟩
  simp at texts

theorem first_prefix {room : Nat} {reply : Wire} (received : Received room chunks reply) :
    chunks.headD [] <+: reply := by
  rw [← received.whole]
  cases chunks with
  | nil => exact List.nil_prefix
  | cons chunk chunks => exact List.prefix_append _ _

theorem length_popped_le (text : Wire) (p : Prop) [Decidable p] :
    (if p then text.dropLast else text).length ≤ text.length := by
  split
  · rw [List.length_dropLast]
    omega
  · exact le_rfl

theorem length_stripEnd_le (body : Wire) : (stripEnd body).length ≤ body.length :=
  (length_popped_le _ _).trans (length_popped_le _ _)

theorem length_stripEnd_lt (newline : body.getLast? = some '\n') :
    (stripEnd body).length < body.length := by
  have nonempty : 0 < body.length := List.length_pos_of_mem (List.mem_of_getLast? newline)
  calc (stripEnd body).length
      ≤ body.dropLast.length := by
        have fst : (if body.getLast? = some '\n' ∨ body.getLast? = some '\r' then body.dropLast
            else body) = body.dropLast := if_pos (.inl newline)
        rw [stripEnd, fst]
        exact length_popped_le _ _
    _ < body.length := by
        rw [List.length_dropLast]
        omega

theorem stripEnd_self (newline : text.getLast? ≠ some '\n')
    (ret : text.getLast? ≠ some '\r') : stripEnd text = text := by
  simp [stripEnd, newline, ret]

/-- A part of a reply is read as the whole exactly when it has all of the lines. -/
theorem body_delivered_iff
    (lines : text = ['\n'].intercalate (linesOf worker.columnNames worker.rows))
    (part : body <+: text ++ ['\n']) :
    ((parseQueryResult ("OK|".toList ++ body)).columnNames = worker.columnNames ∧
      (parseQueryResult ("OK|".toList ++ body)).rows =
        worker.rows.map (fun row => row.map onWire)) ↔
      Legible worker.columnNames worker.rows ∧
        (body = text ++ ['\n'] ∨ (body = text ∧ text.getLast? ≠ some '\n')) := by
  constructor
  · rintro ⟨names, rows⟩
    have legible := legible_parseResult ("OK|".toList ++ body)
    have enough := weight_parseResult body
    rw [names, rows] at legible enough
    refine ⟨legible_of_onWire legible, ?_⟩
    -- What was read has the weight of all lines, so nothing before the last newline is missing.
    rw [linesOf_onWire, Misc.weight_eq_of_ne_nil '\n' (by simp [linesOf]), ← lines] at enough
    have stripped := length_stripEnd_le body
    obtain whole | inside := List.prefix_concat_iff.1 part
    · exact .inl whole
    · have eq : body = text := inside.eq_of_length_le (by omega)
      refine .inr ⟨eq, fun newline => ?_⟩
      have shorter := length_stripEnd_lt newline
      rw [eq] at enough
      omega
  · rintro ⟨legible, arrived⟩
    have clear : '\r' ∉ text := lines ▸ legible.text_clear
    have stripped : stripEnd body = text := by
      obtain rfl | ⟨rfl, last⟩ := arrived
      · exact stripEnd_line clear
      · exact stripEnd_self last (fun ret => clear (List.mem_of_getLast? ret))
    rw [legible.parse (stripped.trans lines)]
    exact ⟨rfl, rfl⟩

theorem arrived_ok_iff :
    Arrived ("OK|".toList ++ body) ("OK|".toList ++ (text ++ ['\n'])) ↔
      body = text ++ ['\n'] ∨ (body = text ∧ text.getLast? ≠ some '\n') := by
  rw [Arrived, List.append_right_inj, List.append_assoc, List.append_right_inj, List.append_left_inj]
  refine or_congr_right (and_congr_right ?_)
  rintro rfl
  rw [List.getLast?_append]
  cases body.getLast? with
  | none =>
    -- The bar before an empty text is no newline either.
    exact iff_of_true (by decide) (by decide)
  | some ch => exact Iff.rfl

/-- **Replies**: the coordinator gets all of a worker's rows or an error exactly when the statement
    failed, or the first chunk of the reply does not even have its first three bytes, or the rows are
    legible and the first chunk has all of the reply. -/
theorem rows_delivered_iff (endpoint : ShardEndpoint)
    (received : Received tcpRoom chunks (formatQueryResult worker)) :
    Delivered worker (executeQuery endpoint chunks) ↔
      worker.success = false ∨ (chunks.headD []).length < 3 ∨
        (Legible worker.columnNames worker.rows ∧
          Arrived (chunks.headD []) (formatQueryResult worker)) := by
  have part := first_prefix received
  by_cases ok : "OK|".toList <+: chunks.headD []
  · have success : worker.success = true := by
      by_contra failed
      exact not_ok_of_failed (by simpa using failed) (ok.trans part)
    have long : ¬ (chunks.headD []).length < 3 := Nat.not_lt.2 ok.length_le
    obtain ⟨body, first⟩ := ok
    have done := (success_query endpoint).2 ⟨body, first⟩
    rw [← first, formatResult_ok success] at part
    have all := body_delivered_iff rfl ((List.prefix_append_right_inj _).1 part)
    rw [← arrived_ok_iff, ← formatResult_ok success, first] at all
    rw [Delivered, done, success, query_ok endpoint first.symm, first, all]
    simp only [Bool.true_eq_false, false_or, long]
  · -- Not a result: a failed statement, or too little of the reply.
    have failed : (executeQuery endpoint chunks).success = false := by
      simpa using mt (success_query endpoint).1 ok
    refine iff_of_true (.inl failed) ?_
    by_cases success : worker.success = true
    · refine .inr (.inl (Nat.not_le.1 fun long => ok ?_))
      rw [formatResult_ok success] at part
      exact List.prefix_of_prefix_length_le (List.prefix_append _ _) part long
    · exact .inl (by simpa using success)

/-- A row that comes in one chunk is handed on. -/
theorem row_delivered :
    Delivered ⟨true, "SELECT OK", 0, [[.int 7, .string "hi"]], ["n", "s"]⟩
      (executeQuery ⟨1, "localhost", 5432⟩ ["OK|n\ts\n7\thi\n".toList]) := by
  have reply : formatQueryResult ⟨true, "SELECT OK", 0, [[.int 7, .string "hi"]], ["n", "s"]⟩ =
      "OK|n\ts\n7\thi\n".toList := by decide +kernel
  have received : Received tcpRoom ["OK|n\ts\n7\thi\n".toList]
      (formatQueryResult ⟨true, "SELECT OK", 0, [[.int 7, .string "hi"]], ["n", "s"]⟩) :=
    ⟨by rw [reply]; rfl, by decide, by decide⟩
  refine (rows_delivered_iff _ received).2 (.inr (.inr ⟨?_, .inl reply.symm⟩))
  have seven : Plain (Value.int 7).toString.toList ∧ (Value.int 7).toString.toList ≠ kWireNull :=
    ⟨⟨by decide +kernel, by decide +kernel, by decide +kernel⟩, by decide +kernel⟩
  have hi : Plain (Value.string "hi").toString.toList ∧
      (Value.string "hi").toString.toList ≠ kWireNull :=
    ⟨⟨by decide, by decide, by decide⟩, by decide⟩
  exact {
    names_plain := by simp [Plain]
    names_ne := by decide
    rows_ne := by simp
    cells_plain := by simpa using ⟨seven, hi⟩
    rows_visible := by simp }

/-- Of two rows whose reply comes in two chunks the first is handed on as the whole result. -/
theorem second_row_lost :
    Received tcpRoom ["OK|n\n1\n".toList, "2\n".toList]
      (formatQueryResult ⟨true, "SELECT OK", 0, [[.string "1"], [.string "2"]], ["n"]⟩) ∧
    executeQuery ⟨1, "localhost", 5432⟩ ["OK|n\n1\n".toList, "2\n".toList] =
      ⟨true, "OK", 0, [[.string "1"]], ["n"]⟩ :=
  ⟨⟨by decide, by decide, by decide⟩, by decide⟩

end TcpRpcClient

end NobugDb
