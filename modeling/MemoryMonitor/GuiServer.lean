import MemoryMonitor.ProcParser

/-! # The HTTP server (`gui_server.c`, `signal_handler.c`)

One connection: `client_thread_worker` receives a request, picks the route and answers.
A request in the buffer is a C string.  What the server's calls of the system find is in
`Host`; the bytes handed to `send` are what the peer gets.
-/
namespace MemoryMonitor

open CString

def bufferSize : Nat := 8192
def initialJsonCap : Nat := 64 * 1024

/-- A file that `serve_file` may find. -/
inductive Served where
  | missing
  | noStat
  | present (size : Nat) (content : List UInt8)

/-- What the server's calls of the system find. -/
structure Host where
  file : String → Served
  /-- Whether `kill(pid, sig)` succeeds. -/
  kill : Int → Int → Bool
  /-- Whether `malloc` and `realloc` of so many bytes succeed. -/
  alloc : Nat → Bool
  /-- What `%.2f` prints for a percentage. -/
  fixed : Percent → List UInt8

/-- `gui_server_t`: what a worker reads of it. -/
structure GuiServer where
  authToken : List UInt8
  latestSnapshot : Option SystemSnapshot

/-- What a worker has done: the bytes it sent, and the arguments of its call of
`signal_send_to_process`. -/
structure Outcome where
  sent : List UInt8
  signal : Option (Int × Int) := none
deriving DecidableEq, Repr

/-! ## Printing -/

/-- `%zu`, `%lu` and `%lld` of a number that is not negative. -/
def decimal (n : Nat) : List UInt8 := (Nat.toDigits 10 n).map fun c => c.toNat.toUInt8

/-- `%d` and `%ld`. -/
def decimalInt (n : Int) : List UInt8 :=
  if n < 0 then 45 :: decimal n.natAbs else decimal n.natAbs

/-- `%02x` of a byte. -/
def hex2 (b : UInt8) : List UInt8 :=
  let digit := fun d : Nat => if d < 10 then (48 + d).toUInt8 else (87 + d).toUInt8
  [digit (b.toNat / 16), digit (b.toNat % 16)]

/-! ## Responses -/

/-- `send_response`: nothing is sent when the header does not fit. -/
def sendResponse (status contentType : String) (body : List UInt8) (extraHeaders : String := "") :
    List UInt8 :=
  let header := bytes "HTTP/1.1 " ++ bytes status ++ bytes "\r\nContent-Type: " ++
    bytes contentType ++ bytes "\r\nContent-Length: " ++ decimal body.length ++
    bytes "\r\nConnection: close\r\n" ++ bytes extraHeaders ++ bytes "\r\n"
  if 1024 ≤ header.length then [] else header ++ body

/-- `serve_file`. -/
def serveFile (h : Host) (filepath contentType : String) : List UInt8 :=
  match h.file filepath with
  | .missing => sendResponse "404 Not Found" "text/plain" (bytes "404 Not Found")
  | .noStat =>
    sendResponse "500 Internal Server Error" "text/plain" (bytes "500 Internal Error")
  | .present size content =>
    let header := bytes "HTTP/1.1 200 OK\r\nContent-Type: " ++ bytes contentType ++
      bytes "\r\nContent-Length: " ++ decimal size ++
      bytes "\r\nConnection: close\r\nX-Content-Type-Options: nosniff\r\n" ++
      bytes "X-Frame-Options: DENY\r\nReferrer-Policy: no-referrer\r\n" ++
      bytes "Cache-Control: no-store\r\nContent-Security-Policy: default-src 'self'; " ++
      bytes "object-src 'none'; base-uri 'self'; frame-ancestors 'none'; script-src 'self'; " ++
      bytes "style-src 'self' 'unsafe-inline'; connect-src 'self'\r\n\r\n"
    if 512 ≤ header.length then [] else header ++ content

/-! ## `/api/metrics` -/

/-- What `escape_json_string` writes for a byte. -/
def escapeByte (c : UInt8) : List UInt8 :=
  if c = 34 then [92, 34]
  else if c = 92 then [92, 92]
  else if c = 8 then bytes "\\b"
  else if c = 12 then bytes "\\f"
  else if c = 10 then bytes "\\n"
  else if c = 13 then bytes "\\r"
  else if c = 9 then bytes "\\t"
  else if c < 32 then bytes "\\u00" ++ hex2 c
  else [c]

/-- The loop of `escape_json_string` with `idx` bytes written. -/
def escapeLoop (maxOut : Nat) : Nat → List UInt8 → List UInt8
  | _, [] => []
  | idx, c :: s =>
    if idx + 6 < maxOut then escapeByte c ++ escapeLoop maxOut (idx + (escapeByte c).length) s
    else []

/-- `escape_json_string`. -/
def escapeJsonString (s : List UInt8) (maxOut : Nat) : List UInt8 := escapeLoop maxOut 0 s

/-- The text before the list of processes. -/
def metricsHead (h : Host) (snap : Option SystemSnapshot) : List UInt8 :=
  let cpu := (snap.map SystemSnapshot.cpu).getD {}
  let mem := (snap.map SystemSnapshot.mem).getD {}
  let truncated := (snap.map SystemSnapshot.truncated).getD false
  bytes "\x7b\n  \"timestamp\": " ++ decimalInt ((snap.map SystemSnapshot.timestamp).getD 0) ++
  bytes ",\n  \"truncated\": " ++ (if truncated then bytes "true" else bytes "false") ++
  bytes ",\n  \"cpu\": \x7b\"total_usage_pct\": " ++ h.fixed cpu.totalUsagePct ++
  bytes ", \"user_pct\": " ++ h.fixed cpu.userPct ++
  bytes ", \"system_pct\": " ++ h.fixed cpu.systemPct ++
  bytes ", \"idle_pct\": " ++ h.fixed cpu.idlePct ++
  bytes ", \"core_count\": " ++ decimalInt cpu.coreCount ++
  bytes "\x7d,\n  \"mem\": \x7b\"mem_total_kb\": " ++ decimal mem.memTotalKb ++
  bytes ", \"mem_available_kb\": " ++ decimal mem.memAvailableKb ++
  bytes ", \"mem_free_kb\": " ++ decimal mem.memFreeKb ++
  bytes ", \"buffers_kb\": " ++ decimal mem.buffersKb ++
  bytes ", \"cached_kb\": " ++ decimal mem.cachedKb ++
  bytes ", \"mem_usage_pct\": " ++ h.fixed mem.memUsagePct ++
  bytes ", \"swap_total_kb\": " ++ decimal mem.swapTotalKb ++
  bytes ", \"swap_free_kb\": " ++ decimal mem.swapFreeKb ++
  bytes ", \"swap_usage_pct\": " ++ h.fixed mem.swapUsagePct ++
  bytes "\x7d,\n  \"processes\": [\n"

/-- The text of a process. -/
def metricsEntry (h : Host) (p : ProcessInfo) (last : Bool) : List UInt8 :=
  bytes "    \x7b\"pid\": " ++ decimalInt p.pid ++
  bytes ", \"comm\": \"" ++ escapeJsonString p.comm (maxCommLen * 4) ++
  bytes "\", \"state\": \"" ++ [p.state] ++
  bytes "\", \"cpu_pct\": " ++ h.fixed p.cpuUsagePct ++
  bytes ", \"mem_rss_kb\": " ++ decimal p.vmRssKb ++
  bytes ", \"threads\": " ++ decimalInt p.numThreads ++
  bytes "\x7d" ++ (if last then [] else bytes ",") ++ bytes "\n"

/-- The loop over the processes, with the text so far and the capacity of its buffer;
`none` when it fails. -/
def metricsLoop (h : Host) : List ProcessInfo → List UInt8 × Nat → Option (List UInt8 × Nat)
  | [], r => some r
  | p :: ps, (json, cap) => do
    let cap ←
      if cap < json.length + 1024 then if h.alloc (cap * 2) then some (cap * 2) else none
      else some cap
    let entry := metricsEntry h p ps.isEmpty
    if cap - json.length ≤ entry.length then none
    else metricsLoop h ps (json ++ entry, cap)

/-- `serve_metrics_json`. -/
def serveMetricsJson (s : GuiServer) (h : Host) : List UInt8 :=
  let unable := sendResponse "500 Internal Server Error" "text/plain"
    (bytes "Unable to serialize metrics")
  if h.alloc initialJsonCap = false then
    sendResponse "500 Internal Server Error" "text/plain" (bytes "Out of Memory")
  else
    let json := metricsHead h s.latestSnapshot
    if initialJsonCap ≤ json.length then unable
    else
      match metricsLoop h ((s.latestSnapshot.map SystemSnapshot.procs).getD [])
          (json, initialJsonCap) with
      | none => unable
      | some (json, cap) =>
        if cap < json.length + 32 ∧ h.alloc (cap + 1024) = false then unable
        else
          -- the body ends at its first NUL
          sendResponse "200 OK" "application/json" (cstr (json ++ bytes "  ]\n\x7d\n"))
            "Cache-Control: no-store\r\n"

/-! ## Authentication -/

/-- `constant_time_streq` of the first `len` bytes. -/
def constantTimeStreq (a b : List UInt8) (len : Nat) : Bool :=
  ((a.take len).zipWith (· ^^^ ·) (b.take len)).foldl (· ||| ·) 0 = 0

/-- The value after the first `n` bytes of a header line is the token. -/
def presents (n : Nat) (token line : List UInt8) : Bool :=
  let val := line.drop n
  val.length = token.length && constantTimeStreq val token token.length

/-- The loop of `check_auth` at `pos`, with `left` bytes of the header from there on. -/
def checkAuthLoop (token : List UInt8) : Nat → List UInt8 → Nat → Bool
  | 0, _, _ => false
  | fuel + 1, pos, left =>
    if left = 0 then false
    else
      let lineEnd := strstr (bytes "\r\n") pos
      let lineLen := (lineEnd.map fun r => r.1.length).getD left
      let line := pos.take lineLen
      let accepted :=
        if 14 < lineLen && startsWithIgnoringCase pos (bytes "X-Auth-Token: ") then
          presents 14 token line
        else if 22 < lineLen && startsWithIgnoringCase pos (bytes "Authorization: Bearer ") then
          presents 22 token line
        else false
      if accepted then true
      else
        match lineEnd with
        | none => false
        | some (skipped, p) =>
          if left ≤ skipped.length then false
          else checkAuthLoop token fuel (p.drop 2) (left - (skipped.length + 2))

/-- `check_auth`.  Every round of its loop passes a line end, so `header_len` rounds are
enough. -/
def checkAuth (s : GuiServer) (buffer : List UInt8) : Bool :=
  if s.authToken.length = 0 then true
  else
    let headerLen := match strstr (bytes "\r\n\r\n") buffer with
      | some (header, _) => header.length
      | none => buffer.length
    checkAuthLoop s.authToken headerLen buffer headerLen

/-! ## Fields of the body -/

/-- The blanks that `parse_json_field` skips. -/
def isBlank (b : UInt8) : Bool := b = 32 || b = 9 || b = 13 || b = 10

/-- What is before an occurrence of the key, last byte first, allows it to be one. -/
def precededOk (back : List UInt8) : Bool :=
  match back.dropWhile isBlank with
  | [] => true
  | c :: _ => c = 123 || c = 44

/-- The value after an occurrence of the key, when a colon follows it. -/
def valueAfter (s : List UInt8) : Option (List UInt8) :=
  match s.dropWhile isBlank with
  | 58 :: v => some (v.dropWhile isBlank)
  | _ => none

/-- The search of `parse_json_field`, with the bytes before `p`, last byte first.  `strstr`
moves on by one byte where the key is not, and an occurrence that is rejected is passed
over whole, by its `skip` other bytes. -/
def findValue (searchKey : List UInt8) : Nat → List UInt8 → List UInt8 → Option (List UInt8)
  | _, _, [] => none
  | skip + 1, back, c :: s => findValue searchKey skip (c :: back) s
  | 0, back, c :: s =>
    if searchKey.isPrefixOf (c :: s) then
      match if precededOk back then valueAfter ((c :: s).drop searchKey.length) else none with
      | some after => some after
      | none => findValue searchKey (searchKey.length - 1) (c :: back) s
    else findValue searchKey 0 (c :: back) s

/-- The bytes of a quoted string, at most `room` of them. -/
def copyQuoted : Nat → List UInt8 → List UInt8
  | 0, _ => []
  | _, [] => []
  | room + 1, 92 :: c :: s => c :: copyQuoted room s
  | room + 1, c :: s => if c = 34 then [] else c :: copyQuoted room s

/-- The bytes of another value, at most `room` of them. -/
def copyToken : Nat → List UInt8 → List UInt8
  | 0, _ => []
  | _, [] => []
  | room + 1, c :: s =>
    if c = 44 || c = 125 || c = 93 || isBlank c then [] else c :: copyToken room s

/-- `parse_json_field`: the string in `out_val`. -/
def parseJsonField (json key : List UInt8) (maxLen : Nat) : List UInt8 :=
  let searchKey := [34] ++ key ++ [34]
  if maxLen = 0 || 128 ≤ searchKey.length then []
  else
    match findValue searchKey 0 [] json with
    | none => []
    | some (34 :: s) => copyQuoted (maxLen - 1) s
    | some s => copyToken (maxLen - 1) s

/-! ## Signals -/

def sigint : Int := 2
def sigkill : Int := 9
def sigterm : Int := 15
def sigcont : Int := 18
def sigstop : Int := 19

/-- `signal_parse_name`. -/
def signalParseName (name : List UInt8) : Int :=
  if name = [] then sigterm
  else if name = bytes "SIGKILL" || name = bytes "9" then sigkill
  else if name = bytes "SIGTERM" || name = bytes "15" then sigterm
  else if name = bytes "SIGSTOP" || name = bytes "19" then sigstop
  else if name = bytes "SIGCONT" || name = bytes "18" then sigcont
  else if name = bytes "SIGINT" || name = bytes "2" then sigint
  else if name = bytes "0" then 0
  else
    let r := strtol name
    if r.range = false && r.endptr = [] && 0 ≤ r.value && r.value ≤ 31 then r.value else -1

/-- `signal_send_to_process`: whether it returns 0. -/
def signalSendToProcess (h : Host) (pid sig : Int) : Bool :=
  if pid ≤ 1 then false else h.kill pid sig

/-- The PID that a text denotes, if it is one that may be signalled. -/
def parsePid (pidStr : List UInt8) : Option Int :=
  let r := strtol pidStr
  if r.range || r.endptr ≠ [] || r.value ≤ 1 || 4194304 < r.value then none else some r.value

/-- `sig_str[0] ? sig_str : "SIGTERM"`. -/
def signalName (sigStr : List UInt8) : List UInt8 :=
  if sigStr = [] then bytes "SIGTERM" else sigStr

/-- What `handle_process_signal` takes from a request: the arguments of its call of
`signal_send_to_process`, or the status and the body of a refusal. -/
def signalRequest (s : GuiServer) (buffer : List UInt8) : Except (String × String) (Int × Int) :=
  if checkAuth s buffer = false then
    .error ("401 Unauthorized", "\x7b\"error\": \"Unauthorized\"\x7d")
  else
    match strstr (bytes "\r\n\r\n") buffer with
    | none => .error ("400 Bad Request", "\x7b\"error\": \"Missing body\"\x7d")
    | some (_, p) =>
      let body := p.drop 4
      let pidStr := parseJsonField body (bytes "pid") 32
      let sigStr := parseJsonField body (bytes "signal") 32
      if pidStr = [] then .error ("400 Bad Request", "\x7b\"error\": \"Missing pid\"\x7d")
      else
        match parsePid pidStr with
        | none => .error ("400 Bad Request", "\x7b\"error\": \"Invalid target PID\"\x7d")
        | some pid =>
          let sig := signalParseName (signalName sigStr)
          if sig < 0 then
            .error ("400 Bad Request", "\x7b\"error\": \"Invalid signal name\"\x7d")
          else .ok (pid, sig)

/-- `handle_process_signal`. -/
def handleProcessSignal (s : GuiServer) (h : Host) (buffer : List UInt8) : Outcome :=
  match signalRequest s buffer with
  | .error (status, body) => { sent := sendResponse status "application/json" (bytes body) }
  | .ok (pid, sig) =>
    if signalSendToProcess h pid sig then
      { sent := sendResponse "200 OK" "application/json"
          (bytes "\x7b\"status\": \"success\"\x7d")
        signal := some (pid, sig) }
    else
      { sent := sendResponse "500 Internal Server Error" "application/json" (bytes
          "\x7b\"status\": \"error\", \"message\": \"Failed to dispatch signal\"\x7d")
        signal := some (pid, sig) }

/-! ## The connection -/

/-- What `recv` returns when the bytes of the peer come in these segments. -/
def recv (segments : List (List UInt8)) (cap : Nat) : List UInt8 := (segments.headD []).take cap

/-- The answer to a request. -/
def respond (s : GuiServer) (h : Host) (buffer : List UInt8) : Outcome :=
  if startsWith buffer (bytes "GET / ") || startsWith buffer (bytes "GET /index.html") then
    { sent := serveFile h "web/index.html" "text/html" }
  else if startsWith buffer (bytes "GET /style.css") then
    { sent := serveFile h "web/style.css" "text/css" }
  else if startsWith buffer (bytes "GET /app.js") then
    { sent := serveFile h "web/app.js" "application/javascript" }
  else if startsWith buffer (bytes "GET /api/metrics") then { sent := serveMetricsJson s h }
  else if startsWith buffer (bytes "POST /api/process/signal") then handleProcessSignal s h buffer
  else if startsWith buffer (bytes "GET ") || startsWith buffer (bytes "POST ") ||
      startsWith buffer (bytes "PUT ") || startsWith buffer (bytes "DELETE ") then
    { sent := sendResponse "404 Not Found" "application/json"
        (bytes "\x7b\"error\": \"Route not found\"\x7d") }
  else
    { sent := sendResponse "405 Method Not Allowed" "application/json"
        (bytes "\x7b\"error\": \"Method not allowed\"\x7d") }

/-- `client_thread_worker`: it receives once. -/
def clientThreadWorker (s : GuiServer) (h : Host) (segments : List (List UInt8)) : Outcome :=
  let buffer := recv segments (bufferSize - 1)
  if buffer = [] then { sent := [] } else respond s h (cstr buffer)

end MemoryMonitor
