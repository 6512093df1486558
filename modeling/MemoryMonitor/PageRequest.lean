import MemoryMonitor.MetricsDocument
import MemoryMonitor.SignalContract

/-! # The request of the page (`app.js`)

`sendSignal` posts `{"pid":...,"signal":...}` with the token in a header line, and the
browser adds header lines of its own around it.  The server finds the token whatever the
other lines are, finds the end of the header, and reads the two fields with a scanner
that knows less than JSON.  What it then does is what the page meant.
-/
namespace MemoryMonitor

open CString JsonText

/-! ## What is sent -/

/-- The buttons of the dialog in `index.html`. -/
inductive SignalButton where
  | stop
  | cont
  | term
  | kill
deriving DecidableEq

namespace SignalButton

/-- `button.dataset.signal`. -/
def dataset : SignalButton → List UInt8
  | stop => bytes "SIGSTOP"
  | cont => bytes "SIGCONT"
  | term => bytes "SIGTERM"
  | kill => bytes "SIGKILL"

/-- The signal of that name. -/
def number : SignalButton → Int
  | stop => sigstop
  | cont => sigcont
  | term => sigterm
  | kill => sigkill

theorem parse_dataset (b : SignalButton) :
    signalParseName (signalName b.dataset) = b.number ∧ 0 ≤ b.number := by
  cases b <;> decide +kernel

end SignalButton

/-- `JSON.stringify({ pid: selectedPid, signal: sigName })`. -/
def stringifySignal (pid : Int) (b : SignalButton) : List UInt8 :=
  bytes "\x7b\"pid\":" ++ decimalInt pid ++ bytes ",\"signal\":\"" ++ b.dataset ++ bytes "\"\x7d"

def crlf : List UInt8 := [13, 10]

/-- A header line: one line, and not an empty one. -/
structure HeaderLine (line : List UInt8) : Prop where
  ne : line ≠ []
  cr : 13 ∉ line
  nul : 0 ∉ line

/-- A request: its lines, a blank line, and its body. -/
def requestText (lines : List (List UInt8)) (body : List UInt8) : List UInt8 :=
  (lines.flatMap fun l => l ++ crlf) ++ crlf ++ body

/-- The line with the token. -/
def tokenLine (token : List UInt8) : List UInt8 := bytes "X-Auth-Token: " ++ token

def postLine : List UInt8 := bytes "POST /api/process/signal HTTP/1.1"

/-- What the browser adds. -/
structure Browser where
  /-- The lines before and after the token. -/
  before : List (List UInt8)
  after : List (List UInt8)
  lines : ∀ l ∈ before ++ after, HeaderLine l
  /-- It does not authenticate by itself. -/
  quiet : ∀ l ∈ before ++ after, ∀ token, ¬ PresentsToken token l

/-- The lines of the request. -/
def Browser.headerLines (b : Browser) (token : List UInt8) : List (List UInt8) :=
  postLine :: (b.before ++ tokenLine token :: b.after)

/-- **The request that `fetch` sends.** -/
def Browser.post (browser : Browser) (token : List UInt8) (pid : Int) (b : SignalButton) :
    List UInt8 := requestText (browser.headerLines token) (stringifySignal pid b)

/-! ## The head -/

theorem noBreak_of_cr {a : List UInt8} (h : 13 ∉ a) : NoBreak a := by
  intro hin
  exact h (hin.subset (show 13 ∈ bytes "\r\n" by decide))

/-- Nothing is found in a text without the first byte of the needle. -/
theorem strstr_skip {c : UInt8} {n a t : List UInt8} (h : c ∉ a) :
    strstr (c :: n) (a ++ t) = (strstr (c :: n) t).map fun r => (a ++ r.1, r.2) := by
  induction a with
  | nil => simp
  | cons d a ih =>
    rw [List.mem_cons, not_or] at h
    rw [List.cons_append, strstr, if_neg, ih h.2, Option.map_map]
    · rfl
    · intro hp
      exact h.1 (List.cons_prefix_cons.mp (List.isPrefixOf_iff_prefix.mp hp)).1

/-- The lines of a head, with CRLF between them. -/
def joinLines : List (List UInt8) → List UInt8
  | [] => []
  | [l] => l
  | l :: ls => l ++ crlf ++ joinLines ls

theorem splitLines_joinLines {lines : List (List UInt8)} (hne : lines ≠ [])
    (hl : ∀ l ∈ lines, HeaderLine l) : splitLines (joinLines lines) = lines := by
  induction lines with
  | nil => exact absurd rfl hne
  | cons l ls ih =>
    obtain ⟨hl, hls⟩ := List.forall_mem_cons.mp hl
    have hbreak := noBreak_of_cr hl.cr
    cases ls with
    | nil => exact splitLines_noBreak hbreak
    | cons l' ls =>
      show splitLines (l ++ crlf ++ joinLines (l' :: ls)) = _
      rw [List.append_assoc]
      show splitLines (l ++ 13 :: 10 :: joinLines (l' :: ls)) = _
      rw [splitLines_break hbreak, ih (by simp) hls]

/-- **The head ends at the blank line**, since no line is empty. -/
theorem strstr_requestText {lines : List (List UInt8)} (hne : lines ≠ [])
    (hl : ∀ l ∈ lines, HeaderLine l) (body : List UInt8) :
    strstr (bytes "\r\n\r\n") (requestText lines body) =
      some (joinLines lines, bytes "\r\n\r\n" ++ body) := by
  unfold requestText
  induction lines with
  | nil => exact absurd rfl hne
  | cons l ls ih =>
    obtain ⟨hfirst, hls⟩ := List.forall_mem_cons.mp hl
    have hskip := @strstr_skip 13 [10, 13, 10] l
    cases ls with
    | nil =>
      have htext : ([l].flatMap fun l => l ++ crlf) ++ crlf ++ body =
          l ++ (bytes "\r\n\r\n" ++ body) := by
        simp [crlf, bytes]
      rw [htext, show bytes "\r\n\r\n" = [13, 10, 13, 10] from rfl, hskip hfirst.cr]
      simp [strstr, joinLines]
    | cons l' ls =>
      obtain ⟨hl', -⟩ := List.forall_mem_cons.mp hls
      obtain ⟨c, s, hcs⟩ := List.exists_cons_of_ne_nil hl'.ne
      have hc : c ≠ 13 := by
        rintro rfl
        exact hl'.cr (hcs ▸ List.mem_cons_self ..)
      have hrest := ih (by simp) hls
      have htext : ((l :: l' :: ls).flatMap fun l => l ++ crlf) ++ crlf ++ body =
          l ++ (13 :: 10 :: (((l' :: ls).flatMap fun l => l ++ crlf) ++ crlf ++ body)) := by
        simp [crlf]
      have hstart : ∃ t, ((l' :: ls).flatMap fun l => l ++ crlf) ++ crlf ++ body = c :: t := by
        rw [List.flatMap_cons, hcs]
        exact ⟨_, rfl⟩
      obtain ⟨t, ht⟩ := hstart
      have hcr : strstr (bytes "\r\n\r\n") (13 :: 10 :: (c :: t)) =
          (strstr (bytes "\r\n\r\n") (c :: t)).map fun r => (13 :: 10 :: r.1, r.2) := by
        rw [strstr, if_neg, strstr, if_neg, Option.map_map]
        · rfl
        · simp [bytes]
        · simp [bytes, Ne.symm hc]
      rw [htext, show bytes "\r\n\r\n" = [13, 10, 13, 10] from rfl, hskip hfirst.cr,
        show [13, 10, 13, 10] = bytes "\r\n\r\n" from rfl, ht, hcr, ← ht, hrest]
      simp [joinLines, crlf]

theorem headerLines_requestText {lines : List (List UInt8)} (hne : lines ≠ [])
    (hl : ∀ l ∈ lines, HeaderLine l) (body : List UInt8) :
    headerLines (requestText lines body) = lines := by
  unfold headerLines headOf
  rw [strstr_requestText hne hl]
  exact splitLines_joinLines hne hl

/-! ## The token -/

theorem presentsToken_tokenLine {t token : List UInt8} :
    PresentsToken t (tokenLine token) ↔ t = token := by
  have hown : PresentsToken token (tokenLine token) :=
    ⟨bytes "X-Auth-Token: ", rfl, _, List.mem_cons_self .., rfl⟩
  constructor
  · exact fun h => h.unique hown
  · rintro rfl
    exact hown

/-- A line with another header name presents nothing. -/
theorem not_presentsToken {l : List UInt8}
    (h : ∀ hdr ∈ tokenHeaders, ¬ hdr.map toLower <+: l.map toLower) (t : List UInt8) :
    ¬ PresentsToken t l := by
  rintro ⟨name, heq, hdr, hmem, hname⟩
  refine h hdr hmem ?_
  rw [heq, List.map_append, hname]
  exact List.prefix_append _ _

theorem postLine_quiet (t : List UInt8) : ¬ PresentsToken t postLine :=
  not_presentsToken (by decide) t

theorem postLine_line : HeaderLine postLine := ⟨by decide, by decide, by decide⟩

theorem Browser.lines_post (browser : Browser) {token : List UInt8}
    (ht : HeaderLine (tokenLine token)) : ∀ l ∈ browser.headerLines token, HeaderLine l := by
  intro l hl
  rcases List.mem_cons.mp hl with rfl | hl
  · exact postLine_line
  rcases List.mem_append.mp hl with hl | hl
  · exact browser.lines l (List.mem_append_left _ hl)
  rcases List.mem_cons.mp hl with rfl | hl
  · exact ht
  · exact browser.lines l (List.mem_append_right _ hl)

/-- **The server finds the token of the page**, and no other. -/
theorem Browser.checkAuth_post (browser : Browser) {s : GuiServer} (hs : s.authToken ≠ [])
    {token : List UInt8} (ht : HeaderLine (tokenLine token)) (pid : Int) (b : SignalButton) :
    checkAuth s (browser.post token pid b) = true ↔ token = s.authToken := by
  rw [checkAuth_iff hs, Browser.post,
    headerLines_requestText (by simp [Browser.headerLines]) (browser.lines_post ht)]
  constructor
  · rintro ⟨l, hl, hpresents⟩
    rcases List.mem_cons.mp hl with rfl | hl
    · exact absurd hpresents (postLine_quiet _)
    rcases List.mem_append.mp hl with hl | hl
    · exact absurd hpresents (browser.quiet l (List.mem_append_left _ hl) _)
    rcases List.mem_cons.mp hl with rfl | hl
    · exact (presentsToken_tokenLine.mp hpresents).symm
    · exact absurd hpresents (browser.quiet l (List.mem_append_right _ hl) _)
  · rintro rfl
    exact ⟨_, by simp [Browser.headerLines], presentsToken_tokenLine.mpr rfl⟩

/-! ## The body -/

/-- The object that the page sends. -/
def signalObject (num : Number) (b : SignalButton) : ObjectText where
  before := []
  object := .object (.members [] ((bytes "pid").map spelling) [] [] (.number num) []
    (.member [] ((bytes "signal").map spelling) [] [] (.string (b.dataset.map spelling)) []))
  isObject := trivial
  after := []

theorem signalObject_text {num : Number} {pid : Int} (hnum : num.text = decimalInt pid)
    (b : SignalButton) : (signalObject num b).text = stringifySignal pid b := by
  unfold ObjectText.text signalObject stringifySignal
  simp only [Syn.text, hnum]
  cases b <;> simp [blanks, quoted, ← escaped_eq_inner] <;> rfl

theorem inner_spelling_pid : inner ((bytes "pid").map spelling) = bytes "pid" := by
  decide +kernel

theorem inner_spelling_signal : inner ((bytes "signal").map spelling) = bytes "signal" := by
  decide +kernel

theorem signalObject_members (num : Number) (b : SignalButton) :
    (signalObject num b).members = [⟨1, (bytes "pid").map spelling, .number num⟩,
      ⟨1, (bytes "signal").map spelling, .string (b.dataset.map spelling)⟩] := by
  rfl

/-- The fields of the body, as `parse_json_field` reads them. -/
theorem parseJsonField_signal {pid : Int} (hpid : -2 ^ 31 ≤ pid ∧ pid < 2 ^ 31) (b : SignalButton) :
    parseJsonField (stringifySignal pid b) (bytes "pid") 32 = decimalInt pid ∧
    parseJsonField (stringifySignal pid b) (bytes "signal") 32 = b.dataset := by
  obtain ⟨num, hnum⟩ := exists_number pid
  have hlen := decimalInt_length (n := pid) (k := 10) (by decide) (by omega)
  rw [← signalObject_text hnum b]
  constructor
  · rw [askable_pid.of_some (m := ⟨1, (bytes "pid").map spelling, .number num⟩) ?_ rfl, hnum,
      List.take_of_length_le (by omega)]
    rw [signalObject_members, List.find?_cons_of_pos]
    exact decide_eq_true inner_spelling_pid
  · have hcopied : copied? (.string (b.dataset.map spelling)) = some b.dataset := by
      cases b <;> decide +kernel
    rw [askable_signal.of_some (m := ⟨1, (bytes "signal").map spelling,
      .string (b.dataset.map spelling)⟩) ?_ hcopied, List.take_of_length_le]
    · cases b <;> decide
    · rw [signalObject_members, List.find?_cons_of_neg, List.find?_cons_of_pos]
      · exact decide_eq_true inner_spelling_signal
      · rw [Member.keyText, inner_spelling_pid]
        decide

/-! ## What the server does -/

/-- The pid that the page prints is the one that is parsed, if it may be signalled. -/
theorem parsePid_decimalInt {pid : Int} (hpid : -2 ^ 31 ≤ pid ∧ pid < 2 ^ 31) :
    parsePid (decimalInt pid) = if 1 < pid ∧ pid ≤ 4194304 then some pid else none := by
  have hscan := scanInt_decimalInt [] (by simp) pid noDigit_nil
  rw [List.nil_append, List.append_nil] at hscan
  have hstrtol : strtol (decimalInt pid) = ⟨pid, false, []⟩ := by
    unfold strtol
    rw [hscan]
    unfold longMax longMin
    simp only
    rw [if_neg (by omega), if_neg (by omega)]
  unfold parsePid
  rw [hstrtol]
  by_cases hok : 1 < pid ∧ pid ≤ 4194304
  · rw [if_pos hok, if_neg]
    simp
    omega
  · rw [if_neg hok, if_pos]
    simp
    omega

/-- What `handle_process_signal` makes of the request of the page. -/
theorem Browser.signalRequest_post (browser : Browser) {s : GuiServer} (hs : s.authToken ≠ [])
    {token : List UInt8} (ht : HeaderLine (tokenLine token)) {pid : Int}
    (hpid : -2 ^ 31 ≤ pid ∧ pid < 2 ^ 31) (b : SignalButton) :
    signalRequest s (browser.post token pid b) =
      if token ≠ s.authToken then .error ("401 Unauthorized", "\x7b\"error\": \"Unauthorized\"\x7d")
      else if 1 < pid ∧ pid ≤ 4194304 then .ok (pid, b.number)
      else .error ("400 Bad Request", "\x7b\"error\": \"Invalid target PID\"\x7d") := by
  have hauth := browser.checkAuth_post hs ht pid b
  have hstr : strstr (bytes "\r\n\r\n") (browser.post token pid b) = _ :=
    strstr_requestText (by simp [Browser.headerLines]) (browser.lines_post ht) _
  obtain ⟨hpidField, hsigField⟩ := parseJsonField_signal hpid b
  have hne : decimalInt pid ≠ [] := by
    unfold decimalInt
    split
    · simp
    · exact decimal_ne_nil _
  have hdrop : (bytes "\r\n\r\n" ++ stringifySignal pid b).drop 4 = stringifySignal pid b := rfl
  unfold signalRequest
  by_cases htok : token = s.authToken
  · rw [if_neg (by rw [hauth.mpr htok]; decide), if_neg (not_not.mpr htok), hstr]
    simp only [hdrop]
    rw [hpidField, hsigField, if_neg hne, parsePid_decimalInt hpid, (b.parse_dataset).1]
    by_cases hok : 1 < pid ∧ pid ≤ 4194304
    · rw [if_pos hok, if_pos hok]
      simp only
      rw [if_neg (not_lt.mpr (b.parse_dataset).2)]
    · rw [if_neg hok, if_neg hok]
  · rw [if_pos, if_pos htok]
    exact Bool.not_eq_true _ ▸ mt hauth.mp htok

theorem zero_not_mem_stringify (pid : Int) (b : SignalButton) : 0 ∉ stringifySignal pid b := by
  have hdata : 0 ∉ b.dataset := by
    cases b <;> decide
  unfold stringifySignal
  simp only [List.mem_append, not_or, zero_not_mem_decimalInt, hdata, not_false_eq_true, and_true]
  decide

theorem Browser.zero_not_mem_post (browser : Browser) {token : List UInt8}
    (ht : HeaderLine (tokenLine token)) (pid : Int) (b : SignalButton) :
    0 ∉ browser.post token pid b := by
  unfold Browser.post requestText
  rw [List.mem_append, List.mem_append, not_or, not_or]
  refine ⟨⟨?_, by decide⟩, zero_not_mem_stringify pid b⟩
  intro h0
  obtain ⟨l, hl, h0⟩ := List.mem_flatMap.mp h0
  rcases List.mem_append.mp h0 with h0 | h0
  · exact (browser.lines_post ht l hl).nul h0
  · exact absurd h0 (by decide)

theorem Browser.post_prefix (browser : Browser) (token : List UInt8) (pid : Int) (b : SignalButton) :
    bytes "POST /api/process/signal" <+: browser.post token pid b := by
  refine List.IsPrefix.trans (show _ <+: postLine by decide) ?_
  unfold Browser.post requestText Browser.headerLines
  rw [List.flatMap_cons, List.append_assoc, List.append_assoc, List.append_assoc]
  exact List.prefix_append _ _

/-- A request of the page goes to `handle_process_signal`, whole. -/
theorem Browser.worker_post (browser : Browser) {token : List UInt8}
    (ht : HeaderLine (tokenLine token)) {pid : Int} {b : SignalButton}
    (hlen : (browser.post token pid b).length < bufferSize) (s : GuiServer) (h : Host) :
    clientThreadWorker s h [browser.post token pid b] =
      handleProcessSignal s h (browser.post token pid b) := by
  have hpre := browser.post_prefix token pid b
  have hnul := browser.zero_not_mem_post ht pid b
  generalize browser.post token pid b = text at *
  have hne : text ≠ [] := by
    rintro rfl
    exact absurd (List.prefix_nil.mp hpre) (by decide)
  have hrecv : recv [text] (bufferSize - 1) = text := by
    show text.take (bufferSize - 1) = text
    exact List.take_of_length_le (by omega)
  have hcstr : cstr text = text := by
    have := @cstr_append text [] hnul
    simpa [cstr] using this
  have hother : ∀ lit, lit.length ≤ 24 → ¬ lit <+: bytes "POST /api/process/signal" →
      startsWith text lit = false := by
    intro lit hlit hno
    rw [Bool.eq_false_iff, ne_eq, startsWith_iff]
    intro hp
    exact hno (List.prefix_of_prefix_length_le hp hpre hlit)
  unfold clientThreadWorker
  simp only [hrecv]
  rw [if_neg hne, hcstr]
  unfold respond
  rw [hother (bytes "GET / ") (by decide) (by decide),
    hother (bytes "GET /index.html") (by decide) (by decide),
    hother (bytes "GET /style.css") (by decide) (by decide),
    hother (bytes "GET /app.js") (by decide) (by decide),
    hother (bytes "GET /api/metrics") (by decide) (by decide),
    startsWith_iff.mpr hpre]
  rfl

/-- No other process is signalled, and no other signal is sent. -/
theorem Browser.signal_post (browser : Browser) {s : GuiServer} (hs : s.authToken ≠ [])
    {token : List UInt8} (ht : HeaderLine (tokenLine token)) {pid : Int}
    (hpid : -2 ^ 31 ≤ pid ∧ pid < 2 ^ 31) (b : SignalButton)
    (hlen : (browser.post token pid b).length < bufferSize) (h : Host) :
    (clientThreadWorker s h [browser.post token pid b]).signal = none ∨
      (clientThreadWorker s h [browser.post token pid b]).signal = some (pid, b.number) := by
  rw [browser.worker_post ht hlen, handleProcessSignal, browser.signalRequest_post hs ht hpid]
  by_cases htok : token = s.authToken
  · rw [if_neg (not_not.mpr htok)]
    by_cases hok : 1 < pid ∧ pid ≤ 4194304
    · rw [if_pos hok]
      simp only
      split
      · exact Or.inr rfl
      · exact Or.inr rfl
    · rw [if_neg hok]
      exact Or.inl rfl
  · rw [if_pos htok]
    exact Or.inl rfl

/-- **The server does what the page meant.**  Whatever lines the browser adds, and whatever
the token is: a request that arrives whole, in one `recv` and below `BUFFER_SIZE`, sends the
signal of the button to the process of the dialog exactly when the token is the server's and
the process may be signalled, and nothing is sent to any other process. -/
theorem page_request_obeyed (browser : Browser) {s : GuiServer} (hs : s.authToken ≠ [])
    {token : List UInt8} (ht : HeaderLine (tokenLine token)) {pid : Int}
    (hpid : -2 ^ 31 ≤ pid ∧ pid < 2 ^ 31) (b : SignalButton)
    (hlen : (browser.post token pid b).length < bufferSize) (h : Host) :
    clientThreadWorker s h [browser.post token pid b] =
      if token ≠ s.authToken then
        { sent := sendResponse "401 Unauthorized" "application/json"
            (bytes "\x7b\"error\": \"Unauthorized\"\x7d") }
      else if ¬ (1 < pid ∧ pid ≤ 4194304) then
        { sent := sendResponse "400 Bad Request" "application/json"
            (bytes "\x7b\"error\": \"Invalid target PID\"\x7d") }
      else if h.kill pid b.number then
        { sent := sendResponse "200 OK" "application/json" (bytes "\x7b\"status\": \"success\"\x7d")
          signal := some (pid, b.number) }
      else
        { sent := sendResponse "500 Internal Server Error" "application/json" (bytes
            "\x7b\"status\": \"error\", \"message\": \"Failed to dispatch signal\"\x7d")
          signal := some (pid, b.number) } := by
  rw [browser.worker_post ht hlen, handleProcessSignal, browser.signalRequest_post hs ht hpid]
  by_cases htok : token = s.authToken
  · rw [if_neg (not_not.mpr htok), if_neg (not_not.mpr htok)]
    by_cases hok : 1 < pid ∧ pid ≤ 4194304
    · have hsend : signalSendToProcess h pid b.number = h.kill pid b.number := by
        unfold signalSendToProcess
        exact if_neg (by omega)
      rw [if_pos hok, if_neg (not_not.mpr hok)]
      simp only
      rw [hsend]
    · rw [if_neg hok, if_pos hok]
  · rw [if_pos htok, if_pos htok]

/-- A browser with a few lines of its own. -/
def plainBrowser : Browser where
  before := [bytes "Host: localhost:8080"]
  after := [bytes "Content-Type: application/json", bytes "Content-Length: 31"]
  lines := by
    simp only [List.singleton_append, List.forall_mem_cons, List.not_mem_nil, false_imp_iff,
      implies_true, and_true]
    exact ⟨⟨by decide, by decide, by decide⟩, ⟨by decide, by decide, by decide⟩, by decide, by decide,
      by decide⟩
  quiet := by
    simp only [List.singleton_append, List.forall_mem_cons, List.not_mem_nil, false_imp_iff,
      implies_true, and_true]
    exact ⟨not_presentsToken (by decide +kernel), not_presentsToken (by decide +kernel),
      not_presentsToken (by decide +kernel)⟩

theorem page_request_obeyed_stop :
    clientThreadWorker demoServer demoHost [plainBrowser.post (bytes "secret") 4242 .stop] =
      { sent := sendResponse "200 OK" "application/json" (bytes "\x7b\"status\": \"success\"\x7d")
        signal := some (4242, sigstop) } := by
  have hs : demoServer.authToken ≠ [] := by
    decide
  have ht : HeaderLine (tokenLine (bytes "secret")) := ⟨by decide, by decide, by decide⟩
  rw [page_request_obeyed plainBrowser hs ht (by decide) .stop (by decide +kernel)]
  rfl

end MemoryMonitor
