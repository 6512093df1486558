import Mathlib.Data.List.Perm.Basic
import Mathlib.Data.List.Perm.Subperm
import MemoryMonitor.Machine
import MemoryMonitor.PageRequest
import MemoryMonitor.SnapshotRange

/-! # The dashboard and its server

The page polls the metrics, shows the processes in a table, opens a dialog for a row and
posts a signal for the process of the dialog (`app.js`); the server publishes snapshots,
answers, and sends the signals.  Answers and requests take their time, and in between the
table is drawn again, the dialog is closed, and another one is opened.

Whatever order all this happens in, a signal goes to a process only because a button was
pressed in a dialog that showed the pid and the name of that process, as one snapshot had
them (`signals_as_shown`).  A name and a pid of two different processes never stand
together.
-/
namespace MemoryMonitor

open CString JsonText

/-! ## Reading the metrics -/

/-- `v.key`: of members with one key the last one counts. -/
def getMember (v : Json) (key : String) : Option Json :=
  match v with
  | .object ms => (ms.reverse.find? fun m => m.1 = bytes key).map Prod.snd
  | _ => none

/-- The number of an integer. -/
def intOf : Json → Option Int
  | .number t =>
    match scanInt t with
    | some (n, []) => some n
    | _ => none
  | _ => none

/-- The spelling of a number. -/
def numberOf : Json → Option (List UInt8)
  | .number t => some t
  | _ => none

def stringOf : Json → Option (List UInt8)
  | .string s => some s
  | _ => none

/-- A process of `currentProcesses`. -/
structure PageProcess where
  pid : Int
  comm : List UInt8
  state : List UInt8
  cpu : List UInt8
  rss : List UInt8
  threads : List UInt8
deriving DecidableEq

/-- A process, from its object; three of its members have two names. -/
def PageProcess.ofJson (v : Json) : Option PageProcess := do
  let pid ← (getMember v "pid").bind intOf
  let comm ← (getMember v "comm").bind stringOf
  let state ← (getMember v "state").bind stringOf
  let cpu ← (getMember v "cpu_usage_pct" <|> getMember v "cpu_pct").bind numberOf
  let rss ← (getMember v "vm_rss_kb" <|> getMember v "mem_rss_kb").bind numberOf
  let threads ← (getMember v "num_threads" <|> getMember v "threads").bind numberOf
  some ⟨pid, comm, state, cpu, rss, threads⟩

/-- `data.processes`. -/
def processesOf (v : Json) : Option (List PageProcess) :=
  match getMember v "processes" with
  | some (.array vs) => vs.mapM PageProcess.ofJson
  | _ => none

/-- What the page knows of a process. -/
def PageProcess.ofInfo (h : Host) (p : ProcessInfo) : PageProcess where
  pid := p.pid
  comm := shownComm p.comm
  state := [p.state]
  cpu := h.fixed p.cpuUsagePct
  rss := decimal p.vmRssKb
  threads := decimalInt p.numThreads

theorem intOf_decimalInt (n : Int) : intOf (.number (decimalInt n)) = some n := by
  have hscan := scanInt_decimalInt [] (by simp) n noDigit_nil
  rw [List.nil_append, List.append_nil] at hscan
  unfold intOf
  simp only [hscan]

theorem ofJson_entryValue (h : Host) (p : ProcessInfo) :
    PageProcess.ofJson (entryValue h p) = some (.ofInfo h p) := by
  have hpid : getMember (entryValue h p) "pid" = some (.number (decimalInt p.pid)) := rfl
  unfold PageProcess.ofJson
  rw [hpid, Option.bind_some, intOf_decimalInt]
  rfl

theorem processesOf_metricsValue (h : Host) (snap : SystemSnapshot) :
    processesOf (metricsValue h snap) = some (snap.procs.map (PageProcess.ofInfo h)) := by
  have hmember : getMember (metricsValue h snap) "processes" =
      some (.array (snap.procs.map (entryValue h))) := rfl
  unfold processesOf
  rw [hmember]
  simp only
  rw [List.mapM_map]
  induction snap.procs with
  | nil => rfl
  | cons p ps ih =>
    rw [List.mapM_cons, ih, Function.comp_apply, ofJson_entryValue]
    rfl

/-! ## The page -/

inductive Filter where
  | all
  | highCpu
  | highMem
deriving DecidableEq

inductive SortSelect where
  | cpu
  | mem
  | pid
  | threads
  | comm
deriving DecidableEq

/-- The controls above the table. -/
structure Look where
  search : List UInt8 := []
  filter : Filter := .all
  sort : SortSelect := .cpu
deriving DecidableEq

/-- What the page uses of its browser: strings, numbers and `Array.prototype.sort` with the
comparison of a mode. -/
structure Shell where
  browser : Browser
  toLowerCase : List UInt8 → List UInt8
  /-- The number with this spelling is greater than the bound of the filter. -/
  cpuAbove : List UInt8 → Bool
  rssAbove : List UInt8 → Bool
  sort : SortSelect → List PageProcess → List PageProcess
  sort_perm : ∀ m ps, (sort m ps).Perm ps

/-- The variables of `app.js`, and what the page shows. -/
structure Page where
  selectedPid : Option Int := none
  currentProcesses : List PageProcess := []
  apiToken : List UInt8 := []
  look : Look := {}
  /-- The rows of the table; each has the process that it was drawn for. -/
  rows : List PageProcess := []
  /-- The pid and the name in the dialog, when it is open. -/
  dialog : Option (Int × List UInt8) := none
deriving DecidableEq

namespace Page

/-- The filters of `renderProcessTable`. -/
def keeps (sh : Shell) (look : Look) (p : PageProcess) : Bool :=
  ((strstr look.search (sh.toLowerCase p.comm)).isSome || (strstr look.search (decimalInt p.pid)).isSome)
    && match look.filter with
      | .all => true
      | .highCpu => sh.cpuAbove p.cpu
      | .highMem => sh.rssAbove p.rss

/-- `renderProcessTable`: at most 100 rows. -/
def renderProcessTable (sh : Shell) (page : Page) : Page :=
  { page with rows := (sh.sort page.look.sort (page.currentProcesses.filter (keeps sh page.look))).take 100 }

/-- `updateDashboard`, for the processes.  A value of another shape is not one of the
server. -/
def updateDashboard (sh : Shell) (page : Page) (data : Json) : Page :=
  match processesOf data with
  | some ps => renderProcessTable sh { page with currentProcesses := ps }
  | none => page

def openSignalModal (page : Page) (pid : Int) (comm : List UInt8) : Page :=
  { page with selectedPid := some pid, dialog := some (pid, comm) }

def closeModal (page : Page) : Page := { page with selectedPid := none, dialog := none }

/-- The bytes that a header value may not have; `fetch` throws. -/
def isHeaderValue (token : List UInt8) : Bool := !token.contains 0 && !token.contains 10 && !token.contains 13

/-- The request of `sendSignal`, if it comes to one. -/
def sendSignal (page : Page) : Option (List UInt8 × Int) :=
  match page.selectedPid with
  | none => none
  | some pid =>
    if pid = 0 || page.apiToken = [] || !isHeaderValue page.apiToken then none
    else some (page.apiToken, pid)

end Page

/-- The body of an answer, when its status is 200 (`response.ok`). -/
def responseBody? (response : List UInt8) : Option (List UInt8) :=
  if startsWith response (bytes "HTTP/1.1 200 ") then
    (strstr (bytes "\r\n\r\n") response).map fun r => r.2.drop 4
  else none

/-! ## The system -/

/-- A request on its way. -/
structure Post where
  token : List UInt8
  pid : Int
  button : SignalButton
deriving DecidableEq

def Post.signal (q : Post) : Int × Int := (q.pid, q.button.number)

/-- A button that was pressed, and what the dialog showed then. -/
structure Press where
  pid : Int
  comm : List UInt8
  button : SignalButton
deriving DecidableEq

def Press.signal (c : Press) : Int × Int := (c.pid, c.button.number)

/-- The server, the page, and what is under way between them. -/
structure Site where
  server : GuiServer
  page : Page := {}
  /-- Answers to `GET /api/metrics` on their way. -/
  responses : List (List UInt8) := []
  posts : List Post := []
  /-- All snapshots so far. -/
  published : List SystemSnapshot := []
  /-- All buttons pressed so far. -/
  presses : List Press := []
  /-- All calls of `signal_send_to_process` so far. -/
  signals : List (Int × Int) := []

/-- What can happen. -/
inductive Happening where
  /-- The main loop publishes a snapshot. -/
  | publish (snap : SystemSnapshot)
  /-- The server answers a poll. -/
  | poll
  /-- An answer arrives, and `JSON.parse` finds a value in it. -/
  | arrive (i : Nat) (data : Json)
  /-- An answer is lost, or is an error. -/
  | lose (i : Nat)
  | adjust (look : Look)
  /-- The button of a row. -/
  | clickRow (i : Nat)
  /-- One of the ways to close the dialog. -/
  | close
  | input (token : List UInt8)
  /-- A button of the dialog. -/
  | press (b : SignalButton)
  /-- A worker receives a request. -/
  | deliver (i : Nat)
  /-- The answer to a request arrives; the page closes the dialog unless it cannot be
  read. -/
  | answered (ok : Bool)

/-- A snapshot of the sampler, with letters for states. -/
def Sampled (snap : SystemSnapshot) : Prop :=
  ∃ (g g' : Parser) (fs : ProcFs), g.takeSnapshot fs = (some snap, g') ∧
    (-2 ^ 31 ≤ g.sysCoreCount ∧ g.sysCoreCount < 2 ^ 31) ∧
    (-2 ^ 63 ≤ fs.time ∧ fs.time < 2 ^ 63) ∧ ∀ p ∈ snap.procs, PlainByte p.state

section
variable (sh : Shell) (h : Host)

/-- Snapshots come from the sampler, a value is one that the text means, and a request
arrives in one piece. -/
def Site.Allowed (x : Site) : Happening → Prop
  | .publish snap => Sampled snap
  | .arrive i data => ∃ response body, x.responses[i]? = some response ∧
      responseBody? response = some body ∧ Means body data
  | .deliver i => ∀ q, x.posts[i]? = some q →
      (sh.browser.post q.token q.pid q.button).length < bufferSize
  | _ => True

def Site.step (x : Site) : Happening → Site
  | .publish snap =>
    { x with server := { x.server with latestSnapshot := some snap }, published := snap :: x.published }
  | .poll => { x with responses := x.responses ++ [serveMetricsJson x.server h] }
  | .arrive i data =>
    { x with responses := x.responses.eraseIdx i, page := x.page.updateDashboard sh data }
  | .lose i => { x with responses := x.responses.eraseIdx i }
  | .adjust look => { x with page := Page.renderProcessTable sh { x.page with look := look } }
  | .clickRow i =>
    match x.page.rows[i]? with
    | some p => { x with page := x.page.openSignalModal p.pid p.comm }
    | none => x
  | .close => { x with page := x.page.closeModal }
  | .input token => { x with page := { x.page with apiToken := token } }
  | .press b =>
    match x.page.sendSignal with
    | some (token, pid) =>
      { x with
        posts := x.posts ++ [⟨token, pid, b⟩]
        presses := (x.page.dialog.map fun d => ⟨d.1, d.2, b⟩).toList ++ x.presses }
    | none => x
  | .deliver i =>
    match x.posts[i]? with
    | some q =>
      { x with
        posts := x.posts.eraseIdx i
        signals := (clientThreadWorker x.server h
          [sh.browser.post q.token q.pid q.button]).signal.toList ++ x.signals }
    | none => x
  | .answered ok => if ok then { x with page := x.page.closeModal } else x

/-- The server and the page, in any order of what happens. -/
def site : Runs.Machine Site Happening Unit Empty :=
  ⟨Site.Allowed sh, fun x i => .ok (x.step sh h i, ())⟩

end

/-- The server has its token, and nothing has happened. -/
def Site.Fresh (x : Site) : Prop :=
  ∃ token, token ≠ [] ∧ x = { server := ⟨token, none⟩ }

/-! ## Answers -/

theorem Sampled.sound {snap : SystemSnapshot} (hs : Sampled snap) : snap.Typed ∧ snap.Printable := by
  obtain ⟨g, g', fs, htake, hcores, htime, hstate⟩ := hs
  obtain ⟨T, hprint⟩ := Parser.takeSnapshot_sound htake hcores htime
  exact ⟨T, hprint hstate⟩

/-- The snapshot of a server that has none. -/
def noSnapshot : SystemSnapshot := ⟨[], false, {}, {}, 0⟩

theorem noSnapshot_sound : noSnapshot.Typed ∧ noSnapshot.Printable := by
  constructor
  · exact ⟨by decide, by simp [noSnapshot], by decide, by decide, by decide, by decide, by decide,
      by decide, by decide, by decide, by decide⟩
  · exact ⟨by simp [noSnapshot], by decide, by decide, by decide, by decide, by decide, by decide⟩

theorem responseBody?_answer200 (body : List UInt8) : responseBody? (answer200 body) = some body := by
  have htext : answer200 body = requestText [bytes "HTTP/1.1 200 OK",
      bytes "Content-Type: application/json", bytes "Content-Length: " ++ decimal body.length,
      bytes "Connection: close", bytes "Cache-Control: no-store"] body := by
    have hfirst : bytes "HTTP/1.1 200 OK\r\nContent-Type: application/json\r\nContent-Length: " =
        bytes "HTTP/1.1 200 OK" ++ (crlf ++ (bytes "Content-Type: application/json" ++ (crlf ++
          bytes "Content-Length: "))) := by
      decide +kernel
    have hrest : bytes "\r\nConnection: close\r\nCache-Control: no-store\r\n\r\n" =
        crlf ++ (bytes "Connection: close" ++ (crlf ++ (bytes "Cache-Control: no-store" ++ (crlf ++
          crlf)))) := by
      decide +kernel
    unfold answer200 requestText
    rw [hfirst, hrest]
    simp only [List.flatMap_cons, List.flatMap_nil, List.append_assoc, List.nil_append]
  have hlines : ∀ l ∈ [bytes "HTTP/1.1 200 OK", bytes "Content-Type: application/json",
      bytes "Content-Length: " ++ decimal body.length, bytes "Connection: close",
      bytes "Cache-Control: no-store"], HeaderLine l := by
    have hcr : 13 ∉ decimal body.length := by
      intro h
      exact absurd (isDigit_of_mem_decimal h) (by decide)
    simp only [List.forall_mem_cons, List.not_mem_nil, false_imp_iff, implies_true, and_true]
    refine ⟨⟨by decide, by decide, by decide⟩, ⟨by decide, by decide, by decide⟩, ⟨?_, ?_, ?_⟩,
      ⟨by decide, by decide, by decide⟩, by decide, by decide, by decide⟩
    · simp [bytes]
    · rw [List.mem_append, not_or]
      exact ⟨by decide, hcr⟩
    · rw [List.mem_append, not_or]
      exact ⟨by decide, zero_not_mem_decimal _⟩
  have hstart : startsWith (answer200 body) (bytes "HTTP/1.1 200 ") = true := rfl
  unfold responseBody?
  rw [hstart, if_pos rfl, htext, strstr_requestText (by simp) hlines]
  rfl

theorem responseBody?_500 (contentType : String) (text : List UInt8) :
    responseBody? (sendResponse "500 Internal Server Error" contentType text) = none := by
  have hstart : startsWith (sendResponse "500 Internal Server Error" contentType text)
      (bytes "HTTP/1.1 200 ") = false := by
    unfold sendResponse
    simp only
    split
    · rfl
    · rfl
  unfold responseBody?
  rw [hstart]
  rfl

/-- **What a poll brings**: nothing, or the processes of the latest snapshot. -/
theorem responseBody?_means {h : Host} (P : h.Prints) {s : GuiServer}
    (hs : ∀ snap, s.latestSnapshot = some snap → Sampled snap) {body : List UInt8} {v : Json}
    (hbody : responseBody? (serveMetricsJson s h) = some body) (hv : Means body v) :
    v = metricsValue h (s.latestSnapshot.getD noSnapshot) := by
  have hsound : (s.latestSnapshot.getD noSnapshot).Typed ∧
      (s.latestSnapshot.getD noSnapshot).Printable := by
    cases hsnap : s.latestSnapshot with
    | none => exact noSnapshot_sound
    | some snap => exact (hs snap hsnap).sound
  have hserve : serveMetricsJson s h =
      serveMetricsJson ⟨s.authToken, some (s.latestSnapshot.getD noSnapshot)⟩ h := by
    unfold serveMetricsJson
    cases s.latestSnapshot with
    | none => rfl
    | some snap => rfl
  rw [hserve] at hbody
  have hlatest : (⟨s.authToken, some (s.latestSnapshot.getD noSnapshot)⟩ : GuiServer).latestSnapshot =
      some (s.latestSnapshot.getD noSnapshot) := rfl
  rcases serveMetricsJson_answers P hsound.1 hlatest with ⟨text, herror⟩ | hok
  · rw [herror, responseBody?_500] at hbody
    cases hbody
  · rw [hok, responseBody?_answer200] at hbody
    obtain rfl := Option.some.inj hbody
    exact hv.unique (printedBody_means P hsound.2)

/-! ## The invariant -/

/-- One of the snapshots has a process with this pid and this name. -/
def Genuine (published : List SystemSnapshot) (pid : Int) (comm : List UInt8) : Prop :=
  ∃ snap ∈ published, ∃ p ∈ snap.procs, p.pid = pid ∧ shownComm p.comm = comm

theorem Genuine.cons {published : List SystemSnapshot} {pid : Int} {comm : List UInt8}
    (h : Genuine published pid comm) (snap : SystemSnapshot) : Genuine (snap :: published) pid comm := by
  obtain ⟨s, hs, hp⟩ := h
  exact ⟨s, List.mem_cons_of_mem _ hs, hp⟩

/-- What the page knows comes from the snapshots, and a dialog is open for the selected
process. -/
structure Page.Honest (published : List SystemSnapshot) (page : Page) : Prop where
  processes : ∀ p ∈ page.currentProcesses, Genuine published p.pid p.comm
  rows : ∀ p ∈ page.rows, Genuine published p.pid p.comm
  selected : page.selectedPid = page.dialog.map Prod.fst
  dialog : ∀ d, page.dialog = some d → Genuine published d.1 d.2

/-- What is on its way comes from the snapshots, and every signal that was sent or is
still to be sent was asked for, each by a press of its own. -/
structure Site.Honest (h : Host) (x : Site) : Prop where
  token : x.server.authToken ≠ []
  sampled : ∀ snap ∈ x.published, Sampled snap
  latest : ∀ snap, x.server.latestSnapshot = some snap → snap ∈ x.published
  responses : ∀ r ∈ x.responses, ∀ body v, responseBody? r = some body → Means body v →
    ∃ snap, v = metricsValue h snap ∧ (snap ∈ x.published ∨ snap = noSnapshot)
  page : x.page.Honest x.published
  presses : ∀ c ∈ x.presses, Genuine x.published c.pid c.comm
  posts : ∀ q ∈ x.posts, HeaderLine (tokenLine q.token) ∧ -2 ^ 31 ≤ q.pid ∧ q.pid < 2 ^ 31
  asked : (x.signals ++ x.posts.map Post.signal).Subperm (x.presses.map Press.signal)

namespace Page.Honest
variable {published : List SystemSnapshot} {page : Page}

theorem publish (P : page.Honest published) (snap : SystemSnapshot) : page.Honest (snap :: published) :=
  ⟨fun p hp => (P.processes p hp).cons snap, fun p hp => (P.rows p hp).cons snap, P.selected,
    fun d hd => (P.dialog d hd).cons snap⟩

/-- The rows are among the processes, however they are filtered and sorted. -/
theorem render (P : page.Honest published) (sh : Shell) :
    (page.renderProcessTable sh).Honest published := by
  refine ⟨P.processes, fun p hp => ?_, P.selected, P.dialog⟩
  have hsorted := (sh.sort_perm _ _).subset (List.mem_of_mem_take hp)
  exact P.processes p (List.mem_of_mem_filter hsorted)

theorem update (P : page.Honest published) (sh : Shell) {h : Host} {snap : SystemSnapshot}
    (hsnap : snap ∈ published ∨ snap = noSnapshot) :
    (page.updateDashboard sh (metricsValue h snap)).Honest published := by
  unfold Page.updateDashboard
  rw [processesOf_metricsValue]
  have hnew : ∀ p ∈ snap.procs.map (PageProcess.ofInfo h), Genuine published p.pid p.comm := by
    intro p hp
    obtain ⟨q, hq, rfl⟩ := List.mem_map.mp hp
    rcases hsnap with hmem | rfl
    · exact ⟨snap, hmem, q, hq, rfl, rfl⟩
    · cases hq
  have P' : Page.Honest published
      { page with currentProcesses := snap.procs.map (PageProcess.ofInfo h) } :=
    ⟨hnew, P.rows, P.selected, P.dialog⟩
  exact P'.render sh

theorem close (P : page.Honest published) : page.closeModal.Honest published :=
  ⟨P.processes, P.rows, rfl, fun d hd => by cases hd⟩

theorem openRow (P : page.Honest published) {p : PageProcess} (hp : p ∈ page.rows) :
    (page.openSignalModal p.pid p.comm).Honest published := by
  refine ⟨P.processes, P.rows, rfl, fun d hd => ?_⟩
  obtain rfl := Option.some.inj hd
  exact P.rows p hp

end Page.Honest

theorem Page.isHeaderValue_iff {token : List UInt8} :
    Page.isHeaderValue token = true ↔ 0 ∉ token ∧ 10 ∉ token ∧ 13 ∉ token := by
  unfold Page.isHeaderValue
  simp [and_assoc]

theorem Page.sendSignal_some {page : Page} {token : List UInt8} {pid : Int}
    (hsend : page.sendSignal = some (token, pid)) :
    page.selectedPid = some pid ∧ HeaderLine (tokenLine token) := by
  unfold Page.sendSignal at hsend
  cases hsel : page.selectedPid with
  | none =>
    rw [hsel] at hsend
    cases hsend
  | some pid' =>
    rw [hsel] at hsend
    simp only at hsend
    split at hsend
    · cases hsend
    · rename_i hok
      obtain ⟨rfl, rfl⟩ := Prod.mk.inj (Option.some.inj hsend)
      obtain ⟨h0, -, h13⟩ : 0 ∉ page.apiToken ∧ 10 ∉ page.apiToken ∧ 13 ∉ page.apiToken := by
        rw [← Page.isHeaderValue_iff]
        cases hvalue : Page.isHeaderValue page.apiToken with
        | true => rfl
        | false => simp [hvalue] at hok
      refine ⟨rfl, ?_, ?_, ?_⟩
      · simp [tokenLine, bytes]
      · rw [tokenLine, List.mem_append, not_or]
        exact ⟨by decide, h13⟩
      · rw [tokenLine, List.mem_append, not_or]
        exact ⟨by decide, h0⟩

section
variable {sh : Shell} {h : Host} {x : Site}

/-- A process of a snapshot has a pid of its type. -/
theorem Site.Honest.pid_range (X : x.Honest h) {pid : Int} {comm : List UInt8}
    (hg : Genuine x.published pid comm) : -2 ^ 31 ≤ pid ∧ pid < 2 ^ 31 := by
  obtain ⟨snap, hsnap, p, hp, rfl, -⟩ := hg
  exact ((X.sampled snap hsnap).sound.1.procs p hp).pid

theorem Site.Honest.publish (X : x.Honest h) {snap : SystemSnapshot} (hs : Sampled snap) :
    (x.step sh h (.publish snap)).Honest h := by
  refine ⟨X.token, List.forall_mem_cons.mpr ⟨hs, X.sampled⟩, ?_, ?_, X.page.publish snap,
    fun c hc => (X.presses c hc).cons snap, X.posts, X.asked⟩
  · intro snap' hlatest
    obtain rfl := Option.some.inj hlatest
    exact List.mem_cons_self ..
  · intro r hr body v hbody hv
    obtain ⟨s, hv, hs⟩ := X.responses r hr body v hbody hv
    exact ⟨s, hv, hs.imp_left (List.mem_cons_of_mem _)⟩

theorem Site.Honest.poll (P : h.Prints) (X : x.Honest h) : (x.step sh h .poll).Honest h := by
  refine ⟨X.token, X.sampled, X.latest, ?_, X.page, X.presses, X.posts, X.asked⟩
  intro r hr body v hbody hv
  rcases List.mem_append.mp hr with hr | hr
  · exact X.responses r hr body v hbody hv
  · obtain rfl := List.mem_singleton.mp hr
    refine ⟨_, responseBody?_means P (fun s hs => X.sampled s (X.latest s hs)) hbody hv, ?_⟩
    cases hlatest : x.server.latestSnapshot with
    | none => exact Or.inr rfl
    | some snap => exact Or.inl (X.latest snap hlatest)

theorem Site.step_press {token : List UInt8} {pid : Int} {d : Int × List UInt8}
    (hsend : x.page.sendSignal = some (token, pid)) (hd : x.page.dialog = some d) (b : SignalButton) :
    x.step sh h (.press b) =
      { x with posts := x.posts ++ [⟨token, pid, b⟩], presses := ⟨d.1, d.2, b⟩ :: x.presses } := by
  simp only [Site.step, hsend, hd]
  rfl

theorem Site.step_press_none (hsend : x.page.sendSignal = none) (b : SignalButton) :
    x.step sh h (.press b) = x := by
  simp only [Site.step, hsend]

/-- A press posts a request for the process that the dialog shows. -/
theorem Site.Honest.press (X : x.Honest h) (b : SignalButton) : (x.step sh h (.press b)).Honest h := by
  cases hsend : x.page.sendSignal with
  | none =>
    rw [Site.step_press_none hsend]
    exact X
  | some r =>
    obtain ⟨token, pid⟩ := r
    obtain ⟨hsel, hline⟩ := Page.sendSignal_some hsend
    have hdialog := X.page.selected
    rw [hsel] at hdialog
    obtain ⟨d, hd, hpid⟩ := Option.map_eq_some_iff.mp hdialog.symm
    have hg := X.page.dialog d hd
    rw [Site.step_press hsend hd]
    refine ⟨X.token, X.sampled, X.latest, X.responses, X.page,
      List.forall_mem_cons.mpr ⟨hg, X.presses⟩, ?_, ?_⟩
    · intro q hq
      rcases List.mem_append.mp hq with hq | hq
      · exact X.posts q hq
      · obtain rfl := List.mem_singleton.mp hq
        exact ⟨hline, hpid ▸ X.pid_range hg⟩
    · show (x.signals ++ (x.posts ++ [(⟨token, pid, b⟩ : Post)]).map Post.signal).Subperm
        ((d.1, b.number) :: x.presses.map Press.signal)
      rw [List.map_append, ← List.append_assoc, hpid]
      exact (List.perm_append_singleton _ _).subperm.trans ((List.subperm_cons _).mpr X.asked)

theorem Site.step_deliver {i : Nat} {q : Post} (hq : x.posts[i]? = some q) :
    x.step sh h (.deliver i) =
      { x with
        posts := x.posts.eraseIdx i
        signals := (clientThreadWorker x.server h
          [sh.browser.post q.token q.pid q.button]).signal.toList ++ x.signals } := by
  simp only [Site.step, hq]

/-- A request that arrives whole causes its own signal, or none. -/
theorem Site.Honest.deliver (X : x.Honest h) {i : Nat} (hi : x.Allowed sh (.deliver i)) :
    (x.step sh h (.deliver i)).Honest h := by
  cases hq : x.posts[i]? with
  | none =>
    have hsame : x.step sh h (.deliver i) = x := by
      simp only [Site.step, hq]
    rw [hsame]
    exact X
  | some q =>
    obtain ⟨hline, hpid⟩ := X.posts q (List.mem_of_getElem? hq)
    obtain ⟨hlt, hget⟩ := List.getElem?_eq_some_iff.mp hq
    have hperm : (q.signal :: (x.posts.eraseIdx i).map Post.signal).Perm (x.posts.map Post.signal) := by
      have := (List.getElem_cons_eraseIdx_perm hlt).map Post.signal
      rwa [hget] at this
    rw [Site.step_deliver hq]
    refine ⟨X.token, X.sampled, X.latest, X.responses, X.page, X.presses,
      fun q' hq' => X.posts q' (List.mem_of_mem_eraseIdx hq'), ?_⟩
    refine List.Subperm.trans ?_ X.asked
    have hall : (q.signal :: x.signals ++ (x.posts.eraseIdx i).map Post.signal).Perm
        (x.signals ++ x.posts.map Post.signal) := by
      refine List.Perm.trans ?_ (List.Perm.append_left x.signals hperm)
      exact List.perm_middle.symm
    rcases sh.browser.signal_post X.token hline hpid q.button (hi q hq) h with hno | hyes
    · rw [hno]
      exact ((List.sublist_cons_self ..).subperm).trans hall.subperm
    · rw [hyes]
      exact hall.subperm

/-- **One step.** -/
theorem Site.Honest.step (P : h.Prints) (X : x.Honest h) {i : Happening} (hi : x.Allowed sh i) :
    (x.step sh h i).Honest h := by
  have hfewer : ∀ i, ∀ r ∈ x.responses.eraseIdx i, r ∈ x.responses := fun _ _ =>
    List.mem_of_mem_eraseIdx
  cases i with
  | publish snap => exact X.publish hi
  | poll => exact X.poll P
  | arrive i data =>
    obtain ⟨r, body, hr, hbody, hdata⟩ := hi
    obtain ⟨snap, rfl, hsnap⟩ := X.responses r (List.mem_of_getElem? hr) body data hbody hdata
    exact ⟨X.token, X.sampled, X.latest, fun r hr => X.responses r (hfewer i r hr),
      X.page.update sh hsnap, X.presses, X.posts, X.asked⟩
  | lose i =>
    exact ⟨X.token, X.sampled, X.latest, fun r hr => X.responses r (hfewer i r hr), X.page, X.presses,
      X.posts, X.asked⟩
  | adjust look =>
    have hpage : Page.Honest x.published { x.page with look := look } :=
      ⟨X.page.processes, X.page.rows, X.page.selected, X.page.dialog⟩
    exact ⟨X.token, X.sampled, X.latest, X.responses, hpage.render sh, X.presses, X.posts, X.asked⟩
  | clickRow i =>
    cases hrow : x.page.rows[i]? with
    | none =>
      have hsame : x.step sh h (.clickRow i) = x := by
        simp only [Site.step, hrow]
      rw [hsame]
      exact X
    | some p =>
      have hopen : x.step sh h (.clickRow i) = { x with page := x.page.openSignalModal p.pid p.comm } := by
        simp only [Site.step, hrow]
      rw [hopen]
      exact ⟨X.token, X.sampled, X.latest, X.responses, X.page.openRow (List.mem_of_getElem? hrow),
        X.presses, X.posts, X.asked⟩
  | close => exact ⟨X.token, X.sampled, X.latest, X.responses, X.page.close, X.presses, X.posts, X.asked⟩
  | input token =>
    exact ⟨X.token, X.sampled, X.latest, X.responses,
      ⟨X.page.processes, X.page.rows, X.page.selected, X.page.dialog⟩, X.presses, X.posts, X.asked⟩
  | press b => exact X.press b
  | deliver i => exact X.deliver hi
  | answered ok =>
    cases ok with
    | true => exact ⟨X.token, X.sampled, X.latest, X.responses, X.page.close, X.presses, X.posts, X.asked⟩
    | false => exact X

theorem Site.Fresh.honest (hx : x.Fresh) : x.Honest h := by
  obtain ⟨token, htoken, rfl⟩ := hx
  exact ⟨htoken, by simp, by simp, by simp, ⟨by simp, by simp, rfl, by simp⟩, by simp, by simp,
    List.nil_subperm⟩

theorem Site.reach_step (hx : (site sh h).Reach Site.Fresh x) (i : Happening) (hi : x.Allowed sh i) :
    (site sh h).Reach Site.Fresh (x.step sh h i) :=
  .next hx hi rfl

/-- **Signals go where the dialog says.**  In every run of the server and the page, with
answers and requests under way in any number and order, as long as each request arrives
whole and below `BUFFER_SIZE` and the snapshots have letters for states: each signal was
asked for by a press of its own, in a dialog that showed the pid it went to; the name beside
that pid was the name that a snapshot has for it; and the dialog that is open is that of the
process a press would signal. -/
theorem signals_as_shown (P : h.Prints) (hx : (site sh h).Reach Site.Fresh x) :
    x.signals.Subperm (x.presses.map Press.signal) ∧
    (∀ c ∈ x.presses, ∃ snap ∈ x.published, ∃ p ∈ snap.procs, p.pid = c.pid ∧
      shownComm p.comm = c.comm) ∧
    x.page.selectedPid = x.page.dialog.map Prod.fst := by
  have X : x.Honest h := hx.invariant (fun _ hi => hi.honest) fun s i s' out hs ha hstep => by
    cases hstep
    exact hs.step P ha
  exact ⟨(List.sublist_append_left ..).subperm.trans X.asked, X.presses, X.page.selected⟩

end

/-- A browser that leaves the rows in the order of the snapshot. -/
def plainShell : Shell where
  browser := plainBrowser
  toLowerCase := List.map toLower
  cpuAbove := fun _ => false
  rssAbove := fun _ => false
  sort := fun _ ps => ps
  sort_perm := fun _ _ => .refl _

/-- The first snapshot of a sampler. -/
def firstSnapshot : SystemSnapshot :=
  (firstMonitor.parser.takeSnapshot (found "200" "50" meminfoText)).1.getD noSnapshot

theorem firstSnapshot_sampled : Sampled firstSnapshot := by
  have htaken : (firstMonitor.parser.takeSnapshot (found "200" "50" meminfoText)).1.isSome = true := by
    decide +kernel
  obtain ⟨snap, hsnap⟩ := Option.isSome_iff_exists.mp htaken
  have htake : firstMonitor.parser.takeSnapshot (found "200" "50" meminfoText) =
      (some snap, (firstMonitor.parser.takeSnapshot (found "200" "50" meminfoText)).2) := by
    rw [← hsnap]
  have hfirst : firstSnapshot = snap := by
    rw [firstSnapshot, hsnap]
    rfl
  rw [hfirst]
  exact ⟨_, _, _, htake, by decide, by decide, Parser.takeSnapshot_states found_plainStates htake⟩

/-- The first poll is answered. -/
theorem firstAnswer : ∃ body, responseBody? (serveMetricsJson ⟨bytes "secret", some firstSnapshot⟩
    quietHost) = some body ∧ Means body (metricsValue quietHost firstSnapshot) := by
  obtain ⟨T, hprint⟩ := firstSnapshot_sampled.sound
  have hlatest : (⟨bytes "secret", some firstSnapshot⟩ : GuiServer).latestSnapshot =
      some firstSnapshot := rfl
  have hshort : ∀ e ∈ printedTexts quietHost firstSnapshot, e.length < 1024 := by
    decide +kernel
  have hdigits := decimal_length (k := 20) (by decide) (printedBody_length quietHost_prints T)
  rcases serveMetricsJson_cases hlatest quietHost_roomy T with ⟨-, hok⟩ | ⟨hno, -⟩
  · rw [hok, sendResponse_ok, if_neg (by omega)]
    exact ⟨_, responseBody?_answer200 _, printedBody_means quietHost_prints hprint⟩
  · exact absurd (AllFit.of_short hshort _) hno

/-- The page when the button is pressed for the only process. -/
def pressRun : List Happening :=
  [.publish firstSnapshot, .poll, .arrive 0 (metricsValue quietHost firstSnapshot), .clickRow 0,
    .input (bytes "secret"), .press .stop]

theorem signals_as_shown_stop : ∃ x, (site plainShell quietHost).Reach Site.Fresh x ∧
    x.signals = [(7, sigstop)] ∧ x.signals.Subperm (x.presses.map Press.signal) := by
  let start : Site := { server := ⟨bytes "secret", none⟩ }
  obtain ⟨body, hbody, hmeans⟩ := firstAnswer
  have hstart : (site plainShell quietHost).Reach Site.Fresh start :=
    .start ⟨bytes "secret", by decide, rfl⟩
  have hpublished := Site.reach_step hstart (.publish firstSnapshot) firstSnapshot_sampled
  have hpolled := Site.reach_step hpublished .poll trivial
  have harrived := Site.reach_step hpolled (.arrive 0 (metricsValue quietHost firstSnapshot))
    ⟨_, body, rfl, hbody, hmeans⟩
  have hopened := Site.reach_step harrived (.clickRow 0) trivial
  have htoken := Site.reach_step hopened (.input (bytes "secret")) trivial
  have hpressed := Site.reach_step htoken (.press .stop) trivial
  have hposts : (pressRun.foldl (Site.step plainShell quietHost) start).posts =
      [⟨bytes "secret", 7, .stop⟩] := by
    decide +kernel
  have hdelivered := Site.reach_step hpressed (.deliver 0) fun q hq => by
    have hq : [⟨bytes "secret", 7, .stop⟩][0]? = some q := hposts ▸ hq
    obtain rfl := Option.some.inj hq
    decide +kernel
  have hsignals : (Site.step plainShell quietHost (pressRun.foldl (Site.step plainShell quietHost)
      start) (.deliver 0)).signals = [(7, sigstop)] := by
    decide +kernel
  exact ⟨_, hdelivered, hsignals, (signals_as_shown quietHost_prints hdelivered).1⟩

end MemoryMonitor
