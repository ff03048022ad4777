/-
# `VotingChain.RpcReads` — a request that comes in pieces

The server reads from a connection once, and takes what it has read for the request.  The
length that the request announces is not looked at.  A request that comes in two pieces is
therefore cut off after the first one, and what the parser of JSON is given is, in general,
not its body; the exceptions are in `parsed_chunks_iff`.
-/
import VotingChain.RpcServer

namespace VotingChain.RpcServer
variable {ι : Type}

/-- The number with these decimal digits. -/
def decimal (digits : List Char) : Nat :=
  digits.foldl (fun n c => 10 * n + (c.toNat - '0'.toNat)) 0

/-- A line that announces the length of the body. -/
def ContentLengthLine (length : Nat) (line : List Char) : Prop :=
  ∃ before after, line = before ++ ':' :: after ∧
    before.map Char.toLower = "content-length".toList ∧
    (∀ c ∈ Text.trim after, c.isDigit) ∧ Text.trim after ≠ [] ∧ decimal (Text.trim after) = length

/-- A POST request, of which no byte is missing. -/
structure CompletePost (data : Bytes) (head : List Char) (body : Bytes) : Prop where
  header : HeaderSection data head body
  method : methodOf head = some "POST"
  contentLength : ∃ line ∈ Text.lines head, ContentLengthLine body.length line

/-- Bytes that are no text, or that authentication refuses. -/
def Refused (config : RpcConfig) (calls : Calls ι) (data : Bytes) : Prop :=
  Text.decode data = none ∨ authValid config calls data = false

/-- What the parser of JSON is given, on a connection with these pieces. -/
def parsedChunks (config : RpcConfig) (calls : Calls ι) (isAllowed : Option Bool)
    (chunks : List Bytes) : List Bytes :=
  ((handleConnection config calls isAllowed).exec (.fresh (chunks.map .bytes))).2.parsed

/-! ## The beginning of a request -/

theorem accepts_iff_not_refused {config : RpcConfig} {calls : Calls ι} {data body : Bytes}
    {head : List Char} (hsection : HeaderSection data head body)
    (hmethod : methodOf head = some "POST") :
    Accepts config calls data body ↔ ¬Refused config calls data := by
  rw [accepts_iff, Refused, not_or, Bool.not_eq_false]
  constructor
  · rintro ⟨head', rest, -, hrest, -, hvalid⟩
    rw [hsection.bytes, Text.decode_encode_append, hrest]
    rw [hsection.bytes] at hvalid
    exact ⟨Option.some_ne_none _, hvalid⟩
  · rintro ⟨htext, hvalid⟩
    cases hrest : Text.decode body with
    | none =>
        rw [hsection.bytes, Text.decode_encode_append, hrest] at htext
        exact absurd rfl htext
    | some rest => exact ⟨head, rest, hsection, rfl, hmethod, hvalid⟩

theorem HeaderSection.of_long {data body chunk more : Bytes} {head : List Char}
    (h : HeaderSection data head body) (hdata : chunk ++ more = data)
    (hlong : (Text.encode (head ++ doubleCrlf)).length ≤ chunk.length) :
    ∃ part, HeaderSection chunk head part ∧ part ++ more = body := by
  have hchunk : chunk <+: data := ⟨more, hdata⟩
  obtain ⟨part, hpart⟩ := List.prefix_of_prefix_length_le ⟨body, h.bytes.symm⟩ hchunk hlong
  refine ⟨part, ⟨hpart.symm, h.first⟩, ?_⟩
  rw [← hpart, h.bytes, List.append_assoc] at hdata
  exact List.append_cancel_left hdata

theorem HeaderSection.not_of_short {data body chunk more : Bytes} {head : List Char}
    (h : HeaderSection data head body) (hdata : chunk ++ more = data)
    (hshort : chunk.length < (Text.encode (head ++ doubleCrlf)).length) :
    ∀ head' body', ¬HeaderSection chunk head' body' := by
  intro head' body' hchunk
  have hwhole : HeaderSection data head' (body' ++ more) := by
    refine ⟨?_, hchunk.first⟩
    rw [← hdata, hchunk.bytes, List.append_assoc]
  obtain ⟨rfl, -⟩ := h.unique hwhole
  rw [hchunk.bytes, List.length_append] at hshort
  omega

/-! ## One read -/

theorem parsedChunks_of_accepts {config : RpcConfig} {calls : Calls ι} {isAllowed : Option Bool}
    {chunk body : Bytes} (hallowed : isAllowed ≠ some false)
    (hsize : chunk.length ≤ config.maxRequestSize) (haccepts : Accepts config calls chunk body)
    (chunks : List Bytes) : parsedChunks config calls isAllowed (chunk :: chunks) = [body] := by
  obtain ⟨sent, hexec⟩ := exec_handleConnection_of_accepts hallowed
    (exec_read_bytes hsize (chunks.map .bytes)) haccepts
  rw [parsedChunks, List.map_cons, hexec]

theorem parsedChunks_of_refused {config : RpcConfig} {calls : Calls ι} {isAllowed : Option Bool}
    {chunk : Bytes} (hallowed : isAllowed ≠ some false)
    (hsize : chunk.length ≤ config.maxRequestSize)
    (hrefused : ∀ body, ¬Accepts config calls chunk body)
    (chunks : List Bytes) : parsedChunks config calls isAllowed (chunk :: chunks) = [] := by
  obtain ⟨sent, hexec⟩ := exec_handleConnection_of_refused hallowed
    (exec_read_bytes hsize (chunks.map .bytes)) hrefused
  rw [parsedChunks, List.map_cons, hexec]

/-- The rate limiter comes before the read. -/
theorem parsedChunks_of_limited (config : RpcConfig) (calls : Calls ι) (chunks : List Bytes) :
    parsedChunks config calls (some false) chunks = [] := by
  rw [parsedChunks, handleConnection, if_pos rfl]
  rfl

/-- A beginning of the request is accepted if it has all of the header section and is not
refused; what is accepted is then the beginning of the body. -/
theorem accepts_part_iff {config : RpcConfig} {calls : Calls ι} {data body chunk more part : Bytes}
    {head : List Char} (hpost : CompletePost data head body) (hdata : chunk ++ more = data) :
    Accepts config calls chunk part ↔
      HeaderSection chunk head part ∧ part ++ more = body ∧ ¬Refused config calls chunk := by
  constructor
  · intro haccepts
    obtain ⟨head', rest, hsection, -⟩ := accepts_iff.mp haccepts
    have hlong : (Text.encode (head ++ doubleCrlf)).length ≤ chunk.length := by
      by_contra hshort
      exact hpost.header.not_of_short hdata (Nat.lt_of_not_le hshort) head' part hsection
    obtain ⟨part', hpart, hbody⟩ := hpost.header.of_long hdata hlong
    obtain ⟨rfl, rfl⟩ := hsection.unique hpart
    exact ⟨hpart, hbody, (accepts_iff_not_refused hpart hpost.method).mp haccepts⟩
  · rintro ⟨hsection, -, hnot⟩
    exact (accepts_iff_not_refused hsection hpost.method).mpr hnot

theorem not_accepts_part_iff {config : RpcConfig} {calls : Calls ι} {data body chunk more : Bytes}
    {head : List Char} (hpost : CompletePost data head body) (hdata : chunk ++ more = data) :
    (∀ part, ¬Accepts config calls chunk part) ↔
      chunk.length < (Text.encode (head ++ doubleCrlf)).length ∨ Refused config calls chunk := by
  constructor
  · intro hnone
    by_contra hnot
    obtain ⟨hlong, hrefused⟩ := not_or.mp hnot
    obtain ⟨part, hpart, hbody⟩ := hpost.header.of_long hdata (Nat.le_of_not_lt hlong)
    exact hnone part ((accepts_part_iff hpost hdata).mpr ⟨hpart, hbody, hrefused⟩)
  · rintro (hshort | hrefused) part haccepts
    · have hsection := ((accepts_part_iff hpost hdata).mp haccepts).1
      exact hpost.header.not_of_short hdata hshort head part hsection
    · exact ((accepts_part_iff hpost hdata).mp haccepts).2.2 hrefused

/-- **Requests in pieces.**  The pieces are those of a complete POST request that fits into the
buffer.  The parser of JSON is given the same as when the request comes in one piece if and
only if: the rate limiter refuses the connection; or the first piece is the whole request; or
the request is refused, and its first piece is refused as well or has not all of its header
section. -/
theorem parsed_chunks_iff (config : RpcConfig) (calls : Calls ι) (isAllowed : Option Bool)
    (data body : Bytes) (head : List Char) (chunk : Bytes) (chunks : List Bytes)
    (hpost : CompletePost data head body) (hsize : data.length ≤ config.maxRequestSize)
    (hdata : (chunk :: chunks).flatten = data) :
    parsedChunks config calls isAllowed (chunk :: chunks) =
        parsedChunks config calls isAllowed [data] ↔
      isAllowed = some false ∨ chunk = data ∨
        Refused config calls data ∧
          (chunk.length < (Text.encode (head ++ doubleCrlf)).length ∨
            Refused config calls chunk) := by
  by_cases hallowed : isAllowed = some false
  · rw [hallowed, parsedChunks_of_limited, parsedChunks_of_limited]
    exact iff_of_true rfl (Or.inl rfl)
  have hflat : chunk ++ chunks.flatten = data := hdata
  have hchunk : chunk.length ≤ config.maxRequestSize := by
    rw [← hflat, List.length_append] at hsize
    omega
  have hpart : ∀ part, Accepts config calls chunk part → part ++ chunks.flatten = body :=
    fun part haccepts => ((accepts_part_iff hpost hflat).mp haccepts).2.1
  have hrefuses : Refused config calls data → ∀ part, ¬Accepts config calls data part :=
    fun hrefused => (not_accepts_part_iff hpost (List.append_nil data)).mpr (Or.inr hrefused)
  rw [or_iff_right hallowed]
  constructor
  · intro heq
    by_cases hrefused : Refused config calls data
    · rw [parsedChunks_of_refused hallowed hsize (hrefuses hrefused)] at heq
      refine Or.inr ⟨hrefused, (not_accepts_part_iff hpost hflat).mp fun part haccepts => ?_⟩
      rw [parsedChunks_of_accepts hallowed hchunk haccepts] at heq
      cases heq
    · left
      have hwhole := (accepts_iff_not_refused hpost.header hpost.method).mpr hrefused
      rw [parsedChunks_of_accepts hallowed hsize hwhole] at heq
      by_cases haccepts : ∃ part, Accepts config calls chunk part
      · obtain ⟨part, haccepts⟩ := haccepts
        rw [parsedChunks_of_accepts hallowed hchunk haccepts] at heq
        have hbody := hpart part haccepts
        rw [List.head_eq_of_cons_eq heq] at hbody
        rw [← hflat, List.append_right_eq_self.mp hbody, List.append_nil]
      · rw [parsedChunks_of_refused hallowed hchunk (not_exists.mp haccepts)] at heq
        cases heq
  · rintro (rfl | ⟨hrefused, hfirst⟩)
    · by_cases haccepts : ∃ part, Accepts config calls chunk part
      · obtain ⟨part, haccepts⟩ := haccepts
        rw [parsedChunks_of_accepts hallowed hchunk haccepts,
          parsedChunks_of_accepts hallowed hchunk haccepts]
      · rw [parsedChunks_of_refused hallowed hchunk (not_exists.mp haccepts),
          parsedChunks_of_refused hallowed hchunk (not_exists.mp haccepts)]
    · rw [parsedChunks_of_refused hallowed hsize (hrefuses hrefused),
        parsedChunks_of_refused hallowed hchunk ((not_accepts_part_iff hpost hflat).mpr hfirst)]

/-! ## A request in two pieces -/

def lengthHead : List Char := "POST / HTTP/1.1\r\nContent-Length: 54".toList

theorem completePost_ping :
    CompletePost (request lengthHead pingBody) lengthHead (Text.encode pingBody) where
  header := ⟨rfl, by decide⟩
  method := by decide
  contentLength := by
    refine ⟨"Content-Length: 54".toList, by decide, "Content-Length".toList, " 54".toList, rfl,
      by decide, List.all_eq_true.mp (by decide), by decide, ?_⟩
    have hlen : (Text.encode pingBody).length = 54 := by decide +kernel
    rw [hlen]
    decide

/-- Authentication is not enabled. -/
def plainConfig : RpcConfig := ⟨1048576, false, none⟩

theorem length_lengthHead_ping :
    (request lengthHead pingBody).length ≤ plainConfig.maxRequestSize := by
  decide +kernel

theorem flatten_ping :
    [Text.encode (lengthHead ++ doubleCrlf), Text.encode pingBody].flatten =
      request lengthHead pingBody := by
  rw [List.flatten_cons, List.flatten_singleton, request]

theorem not_refused_plain {data : Bytes} {text : List Char} (htext : Text.decode data = some text) :
    ¬Refused plainConfig pingCalls data := by
  rintro (hnone | hinvalid)
  · rw [htext] at hnone
    cases hnone
  · cases hinvalid

theorem decode_ping : Text.decode (request lengthHead pingBody) =
    some (lengthHead ++ doubleCrlf ++ pingBody) := by
  rw [request, ← Text.encode_append, Text.decode_encode]

/-- The header section comes first, and the body after it. -/
theorem parsed_chunks_iff_ping :
    parsedChunks plainConfig pingCalls none
        [Text.encode (lengthHead ++ doubleCrlf), Text.encode pingBody] ≠
      parsedChunks plainConfig pingCalls none [request lengthHead pingBody] := by
  intro hsame
  rcases (parsed_chunks_iff plainConfig pingCalls none _ _ lengthHead _ _ completePost_ping
    length_lengthHead_ping flatten_ping).mp hsame with hlimited | hwhole | ⟨hrefused, -⟩
  · cases hlimited
  · have hlength := congrArg List.length hwhole
    revert hlength
    decide +kernel
  · exact not_refused_plain decode_ping hrefused

/-- When it comes in two pieces, the parser of JSON is given an empty body. -/
theorem not_parsed_chunks_ping :
    CompletePost (request lengthHead pingBody) lengthHead (Text.encode pingBody) ∧
    (request lengthHead pingBody).length ≤ plainConfig.maxRequestSize ∧
    [Text.encode (lengthHead ++ doubleCrlf), Text.encode pingBody].flatten =
      request lengthHead pingBody ∧
    parsedChunks plainConfig pingCalls none
      [Text.encode (lengthHead ++ doubleCrlf), Text.encode pingBody] = [[]] ∧
    parsedChunks plainConfig pingCalls none [request lengthHead pingBody] =
      [Text.encode pingBody] ∧
    [[]] ≠ [Text.encode pingBody] := by
  have hallowed : (none : Option Bool) ≠ some false := (Option.some_ne_none false).symm
  refine ⟨completePost_ping, length_lengthHead_ping, flatten_ping, ?_, ?_, ?_⟩
  · refine parsedChunks_of_accepts hallowed (by decide +kernel) ?_ _
    exact (accepts_iff_not_refused completePost_ping.header.without_body
      completePost_ping.method).mpr (not_refused_plain (Text.decode_encode _))
  · refine parsedChunks_of_accepts hallowed length_lengthHead_ping ?_ _
    exact (accepts_iff_not_refused completePost_ping.header completePost_ping.method).mpr
      (not_refused_plain decode_ping)
  · intro heq
    have hnil : Text.encode [] = Text.encode pingBody := List.head_eq_of_cons_eq heq
    have hlen := congrArg List.length (Text.encode_injective hnil)
    revert hlen
    decide

end VotingChain.RpcServer
