/-
# `VotingChain.RpcServer` — one connection to the RPC server

The model of `handle_connection` of `rpc/src/server.rs`.  A connection has the bytes that come
in, in the pieces in which they come.  Of what the server does with them four things are
recorded: the bodies that are given to the parser of JSON, the requests that reach the method
handler, and the responses that are sent.

Authentication is a search for a line of the request.  The search goes over the whole request,
and it is not made at all where no key is configured; what is accepted beyond the header that
is meant is `keyRequired_iff`.
-/
import VotingChain.Lib.Text
import VotingChain.Common

namespace VotingChain

/-! ## Requests and responses -/

/-- JSON-RPC request ID (can be string, number, or null). -/
inductive RequestId where
  | string (s : String)
  | number (n : Int64)
  | null
  deriving DecidableEq

/-- JSON-RPC 2.0 request.  The type of JSON values is `ι`. -/
structure JsonRpcRequest (ι : Type) where
  /-- JSON-RPC version (must be "2.0"). -/
  jsonrpc : String
  method : String
  params : ι
  id : RequestId
  deriving DecidableEq

/-- JSON-RPC error object. -/
structure JsonRpcError (ι : Type) where
  code : Int32
  message : String
  data : Option ι
  deriving DecidableEq

/-- JSON-RPC 2.0 response. -/
structure JsonRpcResponse (ι : Type) where
  jsonrpc : String
  result : Option ι
  error : Option (JsonRpcError ι)
  id : RequestId
  deriving DecidableEq

namespace JsonRpcError
variable {ι : Type}

def parseError (message : String) : JsonRpcError ι := ⟨-32700, message, none⟩

def invalidRequest (message : String) : JsonRpcError ι := ⟨-32600, message, none⟩

def methodNotFound (method : String) : JsonRpcError ι :=
  ⟨-32601, "Method not found: " ++ method, none⟩

def custom (code : Int32) (message : String) : JsonRpcError ι := ⟨code, message, none⟩

end JsonRpcError

/-- Create error response. -/
def createErrorResponse {ι : Type} (id : RequestId) (error : JsonRpcError ι) : JsonRpcResponse ι :=
  ⟨"2.0", none, some error, id⟩

namespace RpcServer

/-- The part of `RpcConfig` that a connection depends on.  How long the server waits for a
request is not a number here: a stream may have a timeout in it. -/
structure RpcConfig where
  /-- Maximum request size in bytes. -/
  maxRequestSize : Nat
  enableAuth : Bool
  /-- API key for authentication. -/
  apiKey : Option String

/-- What the server calls, of other parts and of libraries: the lower case of letters, the
words for bytes that are no UTF-8, the parser of JSON-RPC requests and the method handler. -/
structure Calls (ι : Type) where
  lowerCase : Text.LowerCase
  utf8Error : Bytes → String
  fromSlice : Bytes → Option (JsonRpcRequest ι)
  handleRequest : JsonRpcRequest ι → JsonRpcResponse ι

/-! ## The stream -/

/-- What comes in on a connection, piece by piece. -/
inductive Arrival where
  | bytes (chunk : Bytes)
  | timeout
  | failed (message : String)

/-- A connection, and what has been done with it. -/
structure Connection (ι : Type) where
  incoming : List Arrival
  /-- What was given to the parser. -/
  parsed : List Bytes
  /-- What has reached the method handler. -/
  handled : List (JsonRpcRequest ι)
  sent : List (JsonRpcResponse ι)

variable {ι : Type}

/-- A connection on which nothing was read yet. -/
def Connection.fresh (incoming : List Arrival) : Connection ι := ⟨incoming, [], [], []⟩

/-- `stream.read` into a buffer of this size, once, with the two errors it may end in: what is
there is read, as far as it fits, and nothing at the end of the stream. -/
def read (size : Nat) : Exec (Connection ι) Bytes := do
  match (← get).incoming with
  | [] => pure []
  | .bytes chunk :: rest =>
      modify fun conn => { conn with
        incoming := if chunk.length ≤ size then rest else .bytes (chunk.drop size) :: rest }
      pure (chunk.take size)
  | .timeout :: rest =>
      modify fun conn => { conn with incoming := rest }
      Exec.lift (fail (.networkError "Request timeout"))
  | .failed message :: rest =>
      modify fun conn => { conn with incoming := rest }
      Exec.lift (fail (.networkError ("Failed to read request: " ++ message)))

def sendResponse (response : JsonRpcResponse ι) : Exec (Connection ι) Unit :=
  modify fun conn => { conn with sent := conn.sent ++ [response] }

/-! ## HTTP -/

/-- The double CRLF that separates headers from body. -/
def doubleCrlf : List Char := ['\r', '\n', '\r', '\n']

/-- `ok_or_else`. -/
def okOr {α : Type} (a : Option α) (e : VotingError) : Result α :=
  match a with
  | some a => .ok a
  | none => fail e

/-- Parse HTTP request and extract method and body.  The body is the bytes after the separator;
they are the UTF-8 form of the text after it. -/
def parseHttpRequest (calls : Calls ι) (data : Bytes) : Result (String × Bytes) := do
  let requestStr ← okOr (Text.decode data)
    (.networkError ("Invalid UTF-8: " ++ calls.utf8Error data))
  let headerEnd ← okOr (Text.find doubleCrlf requestStr) (.networkError "Invalid HTTP request")
  let headers := requestStr.take headerEnd
  let bodyStart := headerEnd + doubleCrlf.length
  let firstLine ← okOr (Text.lines headers).head? (.networkError "Empty HTTP request")
  let method ← okOr (Text.firstWord firstLine) (.networkError "Invalid HTTP method")
  return (String.ofList method, Text.encode (requestStr.drop bodyStart))

/-- `line.splitn(2, ':')`. -/
def splitColon (line : List Char) : List (List Char) :=
  match Text.find [':'] line with
  | some i => [line.take i, line.drop (i + 1)]
  | none => [line]

/-- What `check_authorization` does with one line. -/
def lineAuthorizes (calls : Calls ι) (apiKey : String) (line : List Char) : Bool :=
  if "authorization:".toList <+: calls.lowerCase.text line then
    match splitColon line with
    | [_, value] =>
        let authValue := Text.trim value
        authValue = apiKey.toList || authValue = ("Bearer " ++ apiKey).toList
    | _ => false
  else false

/-- Check if Authorization header matches API key. -/
def checkAuthorization (calls : Calls ι) (requestData : Bytes) (apiKey : String) : Bool :=
  match Text.decode requestData with
  | some requestStr => (Text.lines requestStr).any (lineAuthorizes calls apiKey)
  | none => false

/-- The check of authentication, if it is enabled. -/
def authValid (config : RpcConfig) (calls : Calls ι) (requestData : Bytes) : Bool :=
  if config.enableAuth then
    match config.apiKey with
    | some apiKey => checkAuthorization calls requestData apiKey
    | none => true
  else true

/-! ## The connection -/

/-- From the parser of JSON on. -/
def handleBody (calls : Calls ι) (body : Bytes) : Exec (Connection ι) Unit := do
  modify fun conn => { conn with parsed := conn.parsed ++ [body] }
  match calls.fromSlice body with
  | none => sendResponse (createErrorResponse .null (.parseError "Invalid JSON-RPC request"))
  | some rpcRequest =>
      if rpcRequest.jsonrpc ≠ "2.0" then
        sendResponse
          (createErrorResponse rpcRequest.id (.invalidRequest "JSON-RPC version must be 2.0"))
      else do
        modify fun conn => { conn with handled := conn.handled ++ [rpcRequest] }
        sendResponse (calls.handleRequest rpcRequest)

/-- From the parser of HTTP on. -/
def handleData (config : RpcConfig) (calls : Calls ι) (requestData : Bytes) :
    Exec (Connection ι) Unit :=
  match parseHttpRequest calls requestData with
  | .error _ => sendResponse (createErrorResponse .null (.parseError "Invalid HTTP request"))
  | .ok (method, body) =>
      if method ≠ "POST" then
        sendResponse (createErrorResponse .null (.invalidRequest "Only POST method is supported"))
      else if authValid config calls requestData = false then
        sendResponse (createErrorResponse .null (.custom (-32001) "Unauthorized"))
      else
        handleBody calls body

/-- Handle a single HTTP connection.  `isAllowed` is the answer of the rate limiter for the
peer, if there is a limiter. -/
def handleConnection (config : RpcConfig) (calls : Calls ι) (isAllowed : Option Bool) :
    Exec (Connection ι) Unit :=
  if isAllowed = some false then
    sendResponse (createErrorResponse .null (.custom (-32000) "Rate limit exceeded"))
  else do
    let requestData ← read config.maxRequestSize
    if requestData = [] then pure () else handleData config calls requestData

theorem okOr_eq_ok_iff {α : Type} {a : Option α} {b : α} {e : VotingError} :
    okOr a e = .ok b ↔ a = some b := by
  cases a with
  | none =>
      constructor
      · intro h
        cases h
      · intro h
        cases h
  | some a => rw [okOr, Except.ok.injEq, Option.some.injEq]

/-! ## The header section -/

/-- The request begins with the text before the first double CRLF, and has the body after
it. -/
structure HeaderSection (data : Bytes) (head : List Char) (body : Bytes) : Prop where
  bytes : data = Text.encode (head ++ doubleCrlf) ++ body
  first : Text.find doubleCrlf (head ++ doubleCrlf) = some head.length

/-- The first word of the first line. -/
def methodOf (head : List Char) : Option String :=
  ((Text.lines head).head?.bind Text.firstWord).map String.ofList

/-- A line with this name, in letters of either case, and this value. -/
def HeaderField (name value : String) (line : List Char) : Prop :=
  ∃ before after, line = before ++ ':' :: after ∧ before.map Char.toLower = name.toList ∧
    Text.trim after = value.toList

/-- A line that authorizes: its value is the key, or `Bearer` and the key. -/
def AuthorizationLine (apiKey : String) (line : List Char) : Prop :=
  HeaderField "authorization" apiKey line ∨ HeaderField "authorization" ("Bearer " ++ apiKey) line

theorem length_le_header (head : List Char) :
    head.length + doubleCrlf.length ≤ (head ++ doubleCrlf).length :=
  Nat.le_of_eq List.length_append.symm

theorem eq_of_prefix_header {s t : List Char}
    (hs : Text.find doubleCrlf (s ++ doubleCrlf) = some s.length)
    (ht : Text.find doubleCrlf (t ++ doubleCrlf) = some t.length)
    (hbegins : s ++ doubleCrlf <+: t ++ doubleCrlf) : s = t := by
  obtain ⟨more, hmore⟩ := hbegins
  have hfound := (Text.find_append_iff more (length_le_header s)).mpr hs
  rw [hmore, ht, Option.some.injEq] at hfound
  have heq : s ++ doubleCrlf = t ++ doubleCrlf := by
    refine List.IsPrefix.eq_of_length ⟨more, hmore⟩ ?_
    rw [List.length_append, List.length_append, hfound]
  exact List.append_cancel_right heq

theorem HeaderSection.unique {data body body' : Bytes} {head head' : List Char}
    (h : HeaderSection data head body) (h' : HeaderSection data head' body') :
    head = head' ∧ body = body' := by
  have hbytes := h.bytes.symm.trans h'.bytes
  have hhead : head = head' := by
    rcases Nat.le_total (Text.encode (head ++ doubleCrlf)).length
      (Text.encode (head' ++ doubleCrlf)).length with hlen | hlen
    · exact eq_of_prefix_header h.first h'.first (Text.prefix_of_encode_append hbytes hlen)
    · exact (eq_of_prefix_header h'.first h.first
        (Text.prefix_of_encode_append hbytes.symm hlen)).symm
  subst hhead
  exact ⟨rfl, List.append_cancel_left hbytes⟩

theorem HeaderSection.without_body {data body : Bytes} {head : List Char}
    (h : HeaderSection data head body) :
    HeaderSection (Text.encode (head ++ doubleCrlf)) head [] :=
  ⟨(List.append_nil _).symm, h.first⟩

/-! ## What is parsed, and what is authorized -/

/-- What the parser of HTTP accepts: text, with a header section and a method in its first
line. -/
theorem parseHttpRequest_eq_ok_iff {calls : Calls ι} {data body : Bytes} {method : String} :
    parseHttpRequest calls data = .ok (method, body) ↔
      ∃ head rest, HeaderSection data head body ∧ Text.decode body = some rest ∧
        methodOf head = some method := by
  constructor
  · intro h
    rw [parseHttpRequest] at h
    obtain ⟨text, htext, h⟩ := bind_eq_ok.mp h
    obtain ⟨i, hi, h⟩ := bind_eq_ok.mp h
    obtain ⟨line, hline, h⟩ := bind_eq_ok.mp h
    obtain ⟨word, hword, h⟩ := bind_eq_ok.mp h
    rw [okOr_eq_ok_iff] at htext hi hline hword
    cases h
    have hlen := Text.add_length_le_of_find hi
    have htake : (text.take i).length = i := by
      rw [List.length_take]
      omega
    refine ⟨text.take i, text.drop (i + doubleCrlf.length), ⟨?_, ?_⟩, Text.decode_encode _, ?_⟩
    · rw [← Text.encode_append, ← Text.eq_of_find hi]
      exact Text.decode_eq_some_iff.mp htext
    · rw [Text.eq_of_find hi] at hi
      rw [htake]
      refine (Text.find_append_iff _ ?_).mp hi
      rw [List.length_append, htake]
    · rw [methodOf, hline, Option.bind_some, hword, Option.map_some]
  · rintro ⟨head, rest, hsection, hrest, hmethod⟩
    obtain ⟨word, hword, rfl⟩ := Option.map_eq_some_iff.mp hmethod
    obtain ⟨line, hline, hword⟩ := Option.bind_eq_some_iff.mp hword
    have htext : Text.decode data = some (head ++ doubleCrlf ++ rest) := by
      rw [hsection.bytes, Text.decode_encode_append, hrest, Option.map_some]
    have hfind : Text.find doubleCrlf (head ++ doubleCrlf ++ rest) = some head.length :=
      (Text.find_append_iff rest (length_le_header head)).mpr hsection.first
    have htake : (head ++ doubleCrlf ++ rest).take head.length = head := by
      rw [List.append_assoc, List.take_left]
    have hdrop : (head ++ doubleCrlf ++ rest).drop (head.length + doubleCrlf.length) = rest := by
      rw [← List.length_append, List.drop_left]
    rw [parseHttpRequest]
    refine bind_eq_ok.mpr ⟨_, okOr_eq_ok_iff.mpr htext, ?_⟩
    refine bind_eq_ok.mpr ⟨_, okOr_eq_ok_iff.mpr hfind, ?_⟩
    refine bind_eq_ok.mpr ⟨line, okOr_eq_ok_iff.mpr ?_, ?_⟩
    · rw [htake, hline]
    · refine bind_eq_ok.mpr ⟨word, okOr_eq_ok_iff.mpr hword, ?_⟩
      rw [hdrop, Text.decode_eq_some_iff.mp hrest]
      rfl

theorem prefix_map_toLower_iff {name line : List Char} :
    name ++ [':'] <+: line.map Char.toLower ↔
      ∃ before after, line = before ++ ':' :: after ∧ before.map Char.toLower = name := by
  constructor
  · rintro ⟨rest, hrest⟩
    obtain ⟨front, after, rfl, hfront, -⟩ := List.map_eq_append_iff.mp hrest.symm
    obtain ⟨before, colon, rfl, hname, hcolon⟩ := List.map_eq_append_iff.mp hfront
    obtain ⟨c, rfl, hc⟩ := List.map_eq_singleton_iff.mp hcolon
    obtain rfl := Text.eq_of_toLower_eq (by decide) hc
    exact ⟨before, after, List.append_assoc _ _ _, hname⟩
  · rintro ⟨before, after, rfl, rfl⟩
    rw [List.map_append]
    refine List.prefix_append_right_inj _ |>.mpr ?_
    exact List.prefix_append [':'] _

theorem colon_not_mem {before name : List Char} (h : before.map Char.toLower = name)
    (hname : ':' ∉ name) : ':' ∉ before := by
  intro hmem
  rw [← h] at hname
  exact hname (List.mem_map.mpr ⟨':', hmem, rfl⟩)

theorem splitColon_append {before : List Char} (hbefore : ':' ∉ before) (after : List Char) :
    splitColon (before ++ ':' :: after) = [before, after] := by
  have hfind : Text.find [':'] (before ++ ':' :: after) = some before.length := by
    induction before with
    | nil => exact if_pos (List.prefix_append [':'] after)
    | cons c before ih =>
        have hnot : ¬[':'] <+: c :: (before ++ ':' :: after) := by
          intro h
          exact hbefore (List.mem_cons.mpr (Or.inl (List.cons_prefix_cons.mp h).1))
        rw [List.cons_append, Text.find, if_neg hnot,
          ih fun hmem => hbefore (List.mem_cons_of_mem c hmem)]
        rfl
  rw [splitColon, hfind]
  show [(before ++ ':' :: after).take before.length,
    (before ++ ':' :: after).drop (before.length + 1)] = [before, after]
  rw [List.take_left, ← List.drop_drop, List.drop_left]
  rfl

theorem headerField_append_iff {name value : String} {before : List Char}
    (hbefore : before.map Char.toLower = name.toList) (hname : ':' ∉ name.toList)
    (after : List Char) :
    HeaderField name value (before ++ ':' :: after) ↔ Text.trim after = value.toList := by
  constructor
  · rintro ⟨before', after', hline, hbefore', hvalue⟩
    have hsplit := splitColon_append (colon_not_mem hbefore hname) after
    rw [hline, splitColon_append (colon_not_mem hbefore' hname)] at hsplit
    cases hsplit
    exact hvalue
  · exact fun hvalue => ⟨before, after, rfl, hbefore, hvalue⟩

theorem lineAuthorizes_iff (calls : Calls ι) (apiKey : String) (line : List Char) :
    lineAuthorizes calls apiKey line = true ↔ AuthorizationLine apiKey line := by
  have hname : "authorization:".toList <+: calls.lowerCase.text line ↔
      ∃ before after, line = before ++ ':' :: after ∧
        before.map Char.toLower = "authorization".toList := by
    have hword : "authorization:".toList = "authorization".toList ++ [':'] := rfl
    rw [← prefix_map_toLower_iff, ← hword]
    exact calls.lowerCase.prefix_textAfter_iff (by simp) (by decide) [] line
  have hcolon : ':' ∉ "authorization".toList := by decide
  rw [lineAuthorizes]
  split
  · rename_i hbegins
    obtain ⟨before, after, rfl, hbefore⟩ := hname.mp hbegins
    rw [splitColon_append (colon_not_mem hbefore hcolon), AuthorizationLine,
      headerField_append_iff hbefore hcolon, headerField_append_iff hbefore hcolon]
    simp only [Bool.or_eq_true, decide_eq_true_eq]
  · rename_i hbegins
    refine iff_of_false Bool.false_ne_true ?_
    rintro (⟨before, after, hline, hbefore, -⟩ | ⟨before, after, hline, hbefore, -⟩)
    · exact hbegins (hname.mpr ⟨before, after, hline, hbefore⟩)
    · exact hbegins (hname.mpr ⟨before, after, hline, hbefore⟩)

theorem not_authorizationLine_nil (apiKey : String) : ¬AuthorizationLine apiKey [] := by
  rintro (⟨before, after, hline, -⟩ | ⟨before, after, hline, -⟩)
  · exact List.append_ne_nil_of_right_ne_nil _ (List.cons_ne_nil _ _) hline.symm
  · exact List.append_ne_nil_of_right_ne_nil _ (List.cons_ne_nil _ _) hline.symm

/-- The lines of a request are those of its header section, an empty line, and those of its
body. -/
theorem lines_request (head rest : List Char) :
    Text.lines (head ++ doubleCrlf ++ rest) =
      Text.lines (head ++ ['\r', '\n']) ++ [] :: Text.lines rest := by
  have hsplit : head ++ doubleCrlf ++ rest =
      (head ++ ['\r']) ++ '\n' :: ('\r' :: '\n' :: rest) := by
    rw [doubleCrlf, List.append_assoc, List.append_assoc]
    rfl
  have hblank : Text.lines ('\r' :: '\n' :: rest) = [] :: Text.lines rest :=
    Text.lines_append ['\r'] rest
  rw [hsplit, Text.lines_append, hblank, List.append_assoc]
  rfl

/-- The search for the key goes over the lines of the header section and over those of the
body. -/
theorem checkAuthorization_iff {calls : Calls ι} {apiKey : String} {data : Bytes}
    {head rest : List Char} (hsection : HeaderSection data head (Text.encode rest)) :
    checkAuthorization calls data apiKey = true ↔
      (∃ line ∈ Text.lines head, AuthorizationLine apiKey line) ∨
      ∃ line ∈ Text.lines rest, AuthorizationLine apiKey line := by
  have htext : Text.decode data = some (head ++ doubleCrlf ++ rest) := by
    rw [hsection.bytes, ← Text.encode_append, Text.decode_encode]
  have hmem : ∀ line, AuthorizationLine apiKey line →
      (line ∈ Text.lines (head ++ doubleCrlf ++ rest) ↔
        line ∈ Text.lines head ∨ line ∈ Text.lines rest) := by
    intro line hauth
    have hne : line ≠ [] := by
      rintro rfl
      exact not_authorizationLine_nil apiKey hauth
    rw [lines_request, List.mem_append, List.mem_cons, Text.mem_lines_end hne, or_iff_right hne]
  rw [checkAuthorization, htext]
  show (Text.lines (head ++ doubleCrlf ++ rest)).any _ = true ↔ _
  rw [List.any_eq_true]
  simp only [lineAuthorizes_iff]
  constructor
  · rintro ⟨line, hline, hauth⟩
    rcases (hmem line hauth).mp hline with hhead | hrest
    · exact Or.inl ⟨line, hhead, hauth⟩
    · exact Or.inr ⟨line, hrest, hauth⟩
  · rintro (⟨line, hhead, hauth⟩ | ⟨line, hrest, hauth⟩)
    · exact ⟨line, (hmem line hauth).mpr (Or.inl hhead), hauth⟩
    · exact ⟨line, (hmem line hauth).mpr (Or.inr hrest), hauth⟩

/-! ## What becomes of a request -/

/-- The request is given to the parser of JSON, with this body. -/
def Accepts (config : RpcConfig) (calls : Calls ι) (data body : Bytes) : Prop :=
  parseHttpRequest calls data = .ok ("POST", body) ∧ authValid config calls data = true

theorem accepts_iff {config : RpcConfig} {calls : Calls ι} {data body : Bytes} :
    Accepts config calls data body ↔
      ∃ head rest, HeaderSection data head body ∧ Text.decode body = some rest ∧
        methodOf head = some "POST" ∧ authValid config calls data = true := by
  rw [Accepts, parseHttpRequest_eq_ok_iff]
  constructor
  · rintro ⟨⟨head, rest, hsection, hrest, hmethod⟩, hauth⟩
    exact ⟨head, rest, hsection, hrest, hmethod, hauth⟩
  · rintro ⟨head, rest, hsection, hrest, hmethod, hauth⟩
    exact ⟨⟨head, rest, hsection, hrest, hmethod⟩, hauth⟩

theorem handleData_of_accepts {config : RpcConfig} {calls : Calls ι} {data body : Bytes}
    (h : Accepts config calls data body) :
    handleData config calls data = handleBody calls body := by
  rw [handleData, h.1]
  show (if "POST" ≠ "POST" then _ else _) = _
  rw [if_neg (not_not_intro rfl), h.2, if_neg (by decide)]

theorem handleData_of_refused {config : RpcConfig} {calls : Calls ι} {data : Bytes}
    (h : ∀ body, ¬Accepts config calls data body) :
    ∃ error, handleData config calls data = sendResponse (createErrorResponse .null error) := by
  rw [handleData]
  cases hparse : parseHttpRequest calls data with
  | error e => exact ⟨_, rfl⟩
  | ok request =>
      obtain ⟨method, body⟩ := request
      show ∃ error, (if method ≠ "POST" then _ else _) = _
      split
      · exact ⟨_, rfl⟩
      · rename_i hmethod
        obtain rfl := not_not.mp hmethod
        have hauth : authValid config calls data = false := by
          rw [← Bool.not_eq_true]
          exact fun hauth => h body ⟨hparse, hauth⟩
        rw [if_pos hauth]
        exact ⟨_, rfl⟩

/-- The request of version 2.0 in a body, if there is one. -/
def requestOf (calls : Calls ι) (body : Bytes) : Option (JsonRpcRequest ι) :=
  (calls.fromSlice body).filter fun request => request.jsonrpc = "2.0"

theorem exec_handleBody (calls : Calls ι) (body : Bytes) (incoming : List Arrival) :
    ∃ sent, (handleBody calls body).exec (.fresh incoming) =
      (.ok (), ⟨incoming, [body], (requestOf calls body).toList, sent⟩) := by
  rw [handleBody, Exec.exec_modify_bind, requestOf]
  cases hslice : calls.fromSlice body with
  | none => exact ⟨_, rfl⟩
  | some request =>
      show ∃ sent, (if request.jsonrpc ≠ "2.0" then _ else _ : Exec (Connection ι) Unit).exec _ = _
      by_cases hversion : request.jsonrpc = "2.0"
      · have hfilter : (some request).filter (fun r => decide (r.jsonrpc = "2.0")) = some request :=
          Option.filter_some_pos (decide_eq_true hversion)
        rw [if_neg (not_not_intro hversion), Exec.exec_modify_bind, hfilter]
        exact ⟨_, rfl⟩
      · have hfilter : (some request).filter (fun r => decide (r.jsonrpc = "2.0")) = none := by
          rw [Option.filter_some, if_neg (by simpa using hversion)]
        rw [if_pos hversion, hfilter]
        exact ⟨_, rfl⟩

/-- What was read of a connection leaves no trace but in what is still to come. -/
theorem fresh_of_read {size : Nat} {incoming : List Arrival} {data : Bytes} {conn : Connection ι}
    (h : (read size).exec (.fresh incoming) = (.ok data, conn)) :
    ∃ rest, conn = .fresh rest := by
  rw [read, Exec.exec_get_bind] at h
  cases incoming with
  | nil =>
      cases h
      exact ⟨[], rfl⟩
  | cons arrival rest =>
      cases arrival with
      | bytes chunk =>
          cases h
          exact ⟨_, rfl⟩
      | timeout => cases h
      | failed message => cases h

theorem exec_handleConnection {config : RpcConfig} {calls : Calls ι} {isAllowed : Option Bool}
    {incoming : List Arrival} {data : Bytes} {conn : Connection ι}
    (hallowed : isAllowed ≠ some false)
    (hread : (read config.maxRequestSize).exec (.fresh incoming) = (.ok data, conn)) :
    (handleConnection config calls isAllowed).exec (.fresh incoming) =
      (if data = [] then pure () else handleData config calls data).exec conn := by
  rw [handleConnection, if_neg hallowed, Exec.exec_bind, hread]

theorem not_accepts_nil (config : RpcConfig) (calls : Calls ι) (body : Bytes) :
    ¬Accepts config calls [] body := by
  intro h
  obtain ⟨head, rest, hsection, -⟩ := accepts_iff.mp h
  have hnil : Text.encode (head ++ doubleCrlf) = Text.encode [] :=
    (List.append_eq_nil_iff.mp hsection.bytes.symm).1
  have hlen := congrArg List.length (Text.encode_injective hnil)
  rw [List.length_append] at hlen
  cases hlen

theorem exec_handleConnection_of_accepts {config : RpcConfig} {calls : Calls ι}
    {isAllowed : Option Bool} {incoming : List Arrival} {data body : Bytes} {conn : Connection ι}
    (hallowed : isAllowed ≠ some false)
    (hread : (read config.maxRequestSize).exec (.fresh incoming) = (.ok data, conn))
    (haccepts : Accepts config calls data body) :
    ∃ sent, (handleConnection config calls isAllowed).exec (.fresh incoming) =
      (.ok (), ⟨conn.incoming, [body], (requestOf calls body).toList, sent⟩) := by
  have hne : data ≠ [] := by
    rintro rfl
    exact not_accepts_nil config calls body haccepts
  obtain ⟨rest, rfl⟩ := fresh_of_read hread
  rw [exec_handleConnection hallowed hread, if_neg hne, handleData_of_accepts haccepts]
  exact exec_handleBody calls body rest

theorem exec_handleConnection_of_refused {config : RpcConfig} {calls : Calls ι}
    {isAllowed : Option Bool} {incoming : List Arrival} {data : Bytes} {conn : Connection ι}
    (hallowed : isAllowed ≠ some false)
    (hread : (read config.maxRequestSize).exec (.fresh incoming) = (.ok data, conn))
    (hrefused : ∀ body, ¬Accepts config calls data body) :
    ∃ sent, (handleConnection config calls isAllowed).exec (.fresh incoming) =
      (.ok (), ⟨conn.incoming, [], [], sent⟩) := by
  obtain ⟨rest, rfl⟩ := fresh_of_read hread
  rw [exec_handleConnection hallowed hread]
  split
  · exact ⟨[], rfl⟩
  · obtain ⟨error, hanswer⟩ := handleData_of_refused hrefused
    rw [hanswer]
    exact ⟨_, rfl⟩

/-! ## Authentication -/

/-- The key is in a line of the header section. -/
def HeaderAuthorizes (config : RpcConfig) (data : Bytes) : Prop :=
  ∃ apiKey, config.apiKey = some apiKey ∧ ∃ head body, HeaderSection data head body ∧
    ∃ line ∈ Text.lines head, AuthorizationLine apiKey line

/-- What authentication is for.  A request reaches the handler only with the key in its header
section; and where there is a request whose authorization is checked, the outcome is the same
with its body and without it. -/
structure KeyRequired (config : RpcConfig) (calls : Calls ι) (isAllowed : Option Bool)
    (incoming : List Arrival) (data : Bytes) : Prop where
  handled : ((handleConnection config calls isAllowed).exec (.fresh incoming)).2.handled ≠ [] →
    HeaderAuthorizes config data
  body_irrelevant : ∀ body, parseHttpRequest calls data = .ok ("POST", body) →
    ∀ head, HeaderSection data head body →
      authValid config calls data = authValid config calls (Text.encode (head ++ doubleCrlf))

theorem authValid_of_none {config : RpcConfig} (hkey : config.apiKey = none) (calls : Calls ι)
    (data : Bytes) : authValid config calls data = true := by
  rw [authValid, hkey]
  exact ite_self _

theorem authValid_of_some {config : RpcConfig} {apiKey : String} (hauth : config.enableAuth = true)
    (hkey : config.apiKey = some apiKey) (calls : Calls ι) (data : Bytes) :
    authValid config calls data = checkAuthorization calls data apiKey := by
  rw [authValid, if_pos hauth, hkey]

theorem checkAuthorization_header_iff {calls : Calls ι} {apiKey : String} {data body : Bytes}
    {head : List Char} (hsection : HeaderSection data head body) :
    checkAuthorization calls (Text.encode (head ++ doubleCrlf)) apiKey = true ↔
      ∃ line ∈ Text.lines head, AuthorizationLine apiKey line := by
  have hnone : ¬∃ line ∈ Text.lines [], AuthorizationLine apiKey line := by
    rintro ⟨line, hline, -⟩
    exact List.not_mem_nil hline
  have hempty : HeaderSection (Text.encode (head ++ doubleCrlf)) head (Text.encode []) :=
    hsection.without_body
  rw [checkAuthorization_iff hempty, or_iff_left hnone]

/-- **Authentication.**  It is enabled, and bytes were read from a connection.  The key is
required for them if and only if, where they are a POST request: a key is configured, or there
is no request of JSON-RPC in the body; and if a line of the body authorizes, a line of the
header section does. -/
theorem keyRequired_iff (config : RpcConfig) (calls : Calls ι) (isAllowed : Option Bool)
    (incoming : List Arrival) (data : Bytes) (conn : Connection ι)
    (hauth : config.enableAuth = true) (hallowed : isAllowed ≠ some false)
    (hread : (read config.maxRequestSize).exec (.fresh incoming) = (.ok data, conn)) :
    KeyRequired config calls isAllowed incoming data ↔
      ∀ head rest, HeaderSection data head (Text.encode rest) → methodOf head = some "POST" →
        (config.apiKey = none → requestOf calls (Text.encode rest) = none) ∧
        ∀ apiKey, config.apiKey = some apiKey →
          (∃ line ∈ Text.lines rest, AuthorizationLine apiKey line) →
          ∃ line ∈ Text.lines head, AuthorizationLine apiKey line := by
  constructor
  · intro hrequired head rest hsection hmethod
    have hparse : parseHttpRequest calls data = .ok ("POST", Text.encode rest) :=
      parseHttpRequest_eq_ok_iff.mpr ⟨head, rest, hsection, Text.decode_encode rest, hmethod⟩
    constructor
    · intro hkey
      have haccepts : Accepts config calls data (Text.encode rest) :=
        ⟨hparse, authValid_of_none hkey calls data⟩
      obtain ⟨sent, hexec⟩ := exec_handleConnection_of_accepts hallowed hread haccepts
      have hhandled := hrequired.handled
      rw [hexec] at hhandled
      cases hrequest : requestOf calls (Text.encode rest) with
      | none => rfl
      | some request =>
          rw [hrequest] at hhandled
          obtain ⟨apiKey, hsome, -⟩ := hhandled (List.cons_ne_nil _ _)
          rw [hkey] at hsome
          cases hsome
    · intro apiKey hkey hbody
      have hwhole : checkAuthorization calls data apiKey = true :=
        (checkAuthorization_iff hsection).mpr (Or.inr hbody)
      have hsame := hrequired.body_irrelevant _ hparse head hsection
      rw [authValid_of_some hauth hkey, authValid_of_some hauth hkey, hwhole] at hsame
      exact (checkAuthorization_header_iff hsection).mp hsame.symm
  · intro hlines
    constructor
    · intro hhandled
      by_cases haccepts : ∃ body, Accepts config calls data body
      · obtain ⟨body, haccepts⟩ := haccepts
        obtain ⟨sent, hexec⟩ := exec_handleConnection_of_accepts hallowed hread haccepts
        obtain ⟨head, rest, hsection, hrest, hmethod, hvalid⟩ := accepts_iff.mp haccepts
        obtain rfl := Text.decode_eq_some_iff.mp hrest
        obtain ⟨hnone, hsome⟩ := hlines head rest hsection hmethod
        rw [hexec] at hhandled
        cases hkey : config.apiKey with
        | none =>
            rw [hnone hkey] at hhandled
            exact absurd rfl hhandled
        | some apiKey =>
            rw [authValid_of_some hauth hkey, checkAuthorization_iff hsection] at hvalid
            refine ⟨apiKey, hkey, head, _, hsection, ?_⟩
            rcases hvalid with hhead | hbody
            · exact hhead
            · exact hsome apiKey hkey hbody
      · obtain ⟨sent, hexec⟩ := exec_handleConnection_of_refused hallowed hread
          (not_exists.mp haccepts)
        rw [hexec] at hhandled
        exact absurd rfl hhandled
    · intro body hparse head hsection
      obtain ⟨head', rest, hsection', hrest, hmethod⟩ := parseHttpRequest_eq_ok_iff.mp hparse
      obtain ⟨rfl, -⟩ := hsection.unique hsection'
      obtain rfl := Text.decode_eq_some_iff.mp hrest
      cases hkey : config.apiKey with
      | none => rw [authValid_of_none hkey, authValid_of_none hkey]
      | some apiKey =>
          rw [authValid_of_some hauth hkey, authValid_of_some hauth hkey, Bool.eq_iff_iff,
            checkAuthorization_iff hsection, checkAuthorization_header_iff hsection]
          exact or_iff_left_of_imp ((hlines head rest hsection hmethod).2 apiKey hkey)

/-! ## Requests to try things on -/

def ping : JsonRpcRequest Unit := ⟨"2.0", "ping", (), .number 1⟩

def pingBody : List Char :=
  "\x7b\"jsonrpc\":\"2.0\",\"method\":\"ping\",\"params\":null,\"id\":1\x7d".toList

/-- A parser that knows one request, of a method that the handler does not know. -/
def pingCalls : Calls Unit where
  lowerCase := Text.LowerCase.asciiOnly
  utf8Error _ := "invalid utf-8"
  fromSlice body := if body = Text.encode pingBody then some ping else none
  handleRequest request := createErrorResponse request.id (.methodNotFound request.method)

def plainHead : List Char := "POST / HTTP/1.1".toList

def keyHead : List Char := "POST / HTTP/1.1\r\nAUTHORIZATION: Bearer secret".toList

def request (head body : List Char) : Bytes := Text.encode (head ++ doubleCrlf) ++ Text.encode body

theorem headerSection_plain (body : List Char) :
    HeaderSection (request plainHead body) plainHead (Text.encode body) :=
  ⟨rfl, by decide⟩

theorem headerSection_key (body : List Char) :
    HeaderSection (request keyHead body) keyHead (Text.encode body) :=
  ⟨rfl, by decide⟩

theorem exec_read_bytes {size : Nat} {chunk : Bytes} (hlen : chunk.length ≤ size)
    (rest : List Arrival) :
    (read size).exec (.fresh (.bytes chunk :: rest) : Connection ι) = (.ok chunk, .fresh rest) := by
  have htake : chunk.take size = chunk := List.take_of_length_le hlen
  rw [read, Exec.exec_get_bind]
  show (Except.ok (chunk.take size), _) = _
  rw [htake, if_pos hlen]
  rfl

/-- Authentication is enabled, with a key. -/
def keyConfig : RpcConfig := ⟨1048576, true, some "secret"⟩

/-- Authentication is enabled, and there is no key. -/
def openConfig : RpcConfig := ⟨1048576, true, none⟩

theorem read_keyHead :
    (read keyConfig.maxRequestSize).exec (.fresh [.bytes (request keyHead pingBody)]) =
      (.ok (request keyHead pingBody), (.fresh [] : Connection Unit)) :=
  exec_read_bytes (by decide +kernel) []

theorem read_plainHead :
    (read openConfig.maxRequestSize).exec (.fresh [.bytes (request plainHead pingBody)]) =
      (.ok (request plainHead pingBody), (.fresh [] : Connection Unit)) :=
  exec_read_bytes (by decide +kernel) []

/-- A request with the key in its header section, to a server that requires it. -/
theorem keyRequired_ping :
    KeyRequired keyConfig pingCalls none [.bytes (request keyHead pingBody)]
      (request keyHead pingBody) := by
  refine (keyRequired_iff keyConfig pingCalls none _ _ _ rfl (Option.some_ne_none false).symm
    read_keyHead).mpr ?_
  intro head rest hsection hmethod
  obtain ⟨rfl, -⟩ := hsection.unique (headerSection_key pingBody)
  constructor
  · intro hkey
    cases hkey
  · intro apiKey hkey _
    cases hkey
    refine ⟨"AUTHORIZATION: Bearer secret".toList, by decide, Or.inr ?_⟩
    exact ⟨"AUTHORIZATION".toList, " Bearer secret".toList, rfl, by decide, by decide⟩

theorem fromSlice_ping {body : Bytes} (hbody : body = Text.encode pingBody) :
    pingCalls.fromSlice body = some ping := if_pos hbody

theorem requestOf_ping {body : Bytes} (hbody : body = Text.encode pingBody) :
    requestOf pingCalls body = some ping := by
  rw [requestOf, fromSlice_ping hbody]
  exact Option.filter_some_pos (decide_eq_true rfl)

theorem accepts_ping :
    Accepts openConfig pingCalls (request plainHead pingBody) (Text.encode pingBody) := by
  have hvalid : authValid openConfig pingCalls (request plainHead pingBody) = true :=
    authValid_of_none rfl _ _
  exact accepts_iff.mpr
    ⟨plainHead, pingBody, headerSection_plain _, Text.decode_encode _, by decide, hvalid⟩

theorem handled_ping :
    ((handleConnection openConfig pingCalls none).exec
      (.fresh [.bytes (request plainHead pingBody)])).2.handled = [ping] := by
  obtain ⟨sent, hexec⟩ := exec_handleConnection_of_accepts (Option.some_ne_none false).symm
    read_plainHead accepts_ping
  rw [hexec, requestOf_ping rfl]
  rfl

theorem authValid_body :
    authValid keyConfig pingCalls (request plainHead "Authorization: secret".toList) = true := by
  rw [authValid_of_some rfl rfl, checkAuthorization_iff (headerSection_plain _)]
  refine Or.inr ⟨"Authorization: secret".toList, by decide, Or.inl ?_⟩
  exact ⟨"Authorization".toList, " secret".toList, rfl, by decide, by decide⟩

theorem authValid_plain :
    authValid keyConfig pingCalls (Text.encode (plainHead ++ doubleCrlf)) = false := by
  rw [authValid_of_some rfl rfl, ← Bool.not_eq_true,
    checkAuthorization_header_iff (headerSection_plain [])]
  simp only [← lineAuthorizes_iff pingCalls]
  decide

/-- With authentication enabled and no key configured, a request without any key reaches the
handler.  With a key configured, a line of the body is as good as one of the header section. -/
theorem not_keyRequired_ping :
    (((handleConnection openConfig pingCalls none).exec
        (.fresh [.bytes (request plainHead pingBody)])).2.handled = [ping] ∧
      ¬KeyRequired openConfig pingCalls none [.bytes (request plainHead pingBody)]
        (request plainHead pingBody)) ∧
    ¬KeyRequired keyConfig pingCalls none
      [.bytes (request plainHead "Authorization: secret".toList)]
      (request plainHead "Authorization: secret".toList) := by
  refine ⟨⟨handled_ping, ?_⟩, ?_⟩
  · intro hrequired
    have hhandled := hrequired.handled
    rw [handled_ping] at hhandled
    obtain ⟨apiKey, hkey, -⟩ := hhandled (List.cons_ne_nil _ _)
    cases hkey
  · intro hrequired
    have hparse : parseHttpRequest pingCalls (request plainHead "Authorization: secret".toList) =
        .ok ("POST", Text.encode "Authorization: secret".toList) :=
      parseHttpRequest_eq_ok_iff.mpr
        ⟨plainHead, _, headerSection_plain _, Text.decode_encode _, by decide⟩
    have hsame := hrequired.body_irrelevant _ hparse plainHead (headerSection_plain _)
    rw [authValid_body, authValid_plain] at hsame
    cases hsame

end RpcServer

end VotingChain
