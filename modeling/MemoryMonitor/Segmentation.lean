import MemoryMonitor.GuiServer
import Mathlib.Data.List.Basic

/-! # One `recv` for a request

`send_all` sends until everything is sent, but `client_thread_worker` receives once, and
answers whatever the first segment holds.  The first byte alone is never a route, so the
answer to a request does not depend on how it is cut exactly when its answer is the one
to an unknown method.
-/
namespace MemoryMonitor

open CString

/-- The methods that the routes know. -/
def methods : List (List UInt8) := [bytes "GET ", bytes "POST ", bytes "PUT ", bytes "DELETE "]

/-- The request begins with one of them. -/
def StartsWithMethod (request : List UInt8) : Prop := ∃ m ∈ methods, m <+: request

/-- However the request is cut into segments, the outcome is that of a single one. -/
def SegmentationIndependent (s : GuiServer) (h : Host) (request : List UInt8) : Prop :=
  ∀ segments : List (List UInt8), segments.flatten = request → (∀ g ∈ segments, g ≠ []) →
    clientThreadWorker s h segments = clientThreadWorker s h [request]

/-! ## Prefixes -/

/-- A literal has no NUL, so it can be compared with the whole buffer. -/
theorem prefix_cstr {lit buf : List UInt8} (h0 : 0 ∉ lit) : lit <+: cstr buf ↔ lit <+: buf := by
  constructor
  · exact fun h => h.trans (List.takeWhile_prefix _)
  · intro h
    obtain ⟨t, rfl⟩ := h
    unfold cstr
    rw [List.takeWhile_append_of_pos]
    · exact List.prefix_append ..
    · intro b hb
      rw [decide_eq_true_eq]
      exact ne_of_mem_of_not_mem hb h0

theorem startsWithMethod_cstr {buf : List UInt8} :
    StartsWithMethod (cstr buf) ↔ StartsWithMethod buf := by
  have h0 : ∀ m ∈ methods, (0 : UInt8) ∉ m := by decide
  constructor
  · rintro ⟨m, hm, h⟩
    exact ⟨m, hm, (prefix_cstr (h0 m hm)).mp h⟩
  · rintro ⟨m, hm, h⟩
    exact ⟨m, hm, (prefix_cstr (h0 m hm)).mpr h⟩

theorem StartsWithMethod.mono {a b : List UInt8} (h : StartsWithMethod a) (hab : a <+: b) :
    StartsWithMethod b := by
  obtain ⟨m, hm, hma⟩ := h
  exact ⟨m, hm, hma.trans hab⟩

/-- The buffer is long enough for the method. -/
theorem StartsWithMethod.take {a : List UInt8} (h : StartsWithMethod a) {n : Nat} (hn : 7 ≤ n) :
    StartsWithMethod (a.take n) := by
  obtain ⟨m, hm, hma⟩ := h
  have hlen : ∀ m ∈ methods, m.length ≤ 7 := by decide
  exact ⟨m, hm, List.prefix_take_iff.mpr ⟨hma, Nat.le_trans (hlen m hm) hn⟩⟩

/-- One byte is not a method. -/
theorem not_startsWithMethod_singleton (b : UInt8) : ¬ StartsWithMethod [b] := by
  rintro ⟨m, hm, h⟩
  have hlen : ∀ m ∈ methods, 1 < m.length := by decide
  have h1 := hlen m hm
  have h2 := h.length_le
  rw [List.length_singleton] at h2
  omega

/-! ## Responses -/

/-- The answer to a method that no route knows. -/
def notAllowed : Outcome :=
  { sent := sendResponse "405 Method Not Allowed" "application/json"
      (bytes "\x7b\"error\": \"Method not allowed\"\x7d") }

/-- The bytes do not begin like a 405. -/
def Not405 (sent : List UInt8) : Prop := sent.take 12 ≠ bytes "HTTP/1.1 405"

instance (sent : List UInt8) : Decidable (Not405 sent) := inferInstanceAs (Decidable (_ ≠ _))

theorem notAllowed_sent : notAllowed.sent.take 12 = bytes "HTTP/1.1 405" := by decide +kernel

theorem Not405.append {a : List UInt8} (h : Not405 a) (hlen : 12 ≤ a.length) (t : List UInt8) :
    Not405 (a ++ t) := by
  unfold Not405
  rw [List.take_append_of_le_length hlen]
  exact h

/-- A status line of another status. -/
def OtherStatus (status : String) : Prop :=
  Not405 (bytes "HTTP/1.1 " ++ bytes status) ∧ 12 ≤ (bytes "HTTP/1.1 " ++ bytes status).length

instance (status : String) : Decidable (OtherStatus status) :=
  inferInstanceAs (Decidable (_ ∧ _))

theorem OtherStatus.not405 {status : String} (h : OtherStatus status) (contentType : String)
    (body : List UInt8) (extra : String) :
    Not405 (sendResponse status contentType body extra) := by
  unfold sendResponse
  simp only
  split
  · decide
  · simp only [List.append_assoc]
    rw [← List.append_assoc]
    exact h.1.append h.2 _

theorem serveFile_not405 (h : Host) (filepath contentType : String) :
    Not405 (serveFile h filepath contentType) := by
  unfold serveFile
  split
  · apply OtherStatus.not405
    decide
  · apply OtherStatus.not405
    decide
  · simp only
    split
    · decide
    · simp only [List.append_assoc]
      exact Not405.append (by decide) (by decide) _

theorem serveMetricsJson_not405 (s : GuiServer) (h : Host) : Not405 (serveMetricsJson s h) := by
  have h500 : OtherStatus "500 Internal Server Error" := by decide
  unfold serveMetricsJson
  simp only
  split
  · exact h500.not405 _ _ _
  · split
    · exact h500.not405 _ _ _
    · split
      · exact h500.not405 _ _ _
      · split
        · exact h500.not405 _ _ _
        · apply OtherStatus.not405
          decide

theorem signalRequest_error {s : GuiServer} {buffer : List UInt8} {status body : String}
    (h : signalRequest s buffer = .error (status, body)) : OtherStatus status := by
  unfold signalRequest at h
  split at h
  · cases h
    decide
  · split at h
    · cases h
      decide
    · simp only at h
      split at h
      · cases h
        decide
      · split at h
        · cases h
          decide
        · split at h
          · cases h
            decide
          · cases h

theorem handleProcessSignal_not405 (s : GuiServer) (h : Host) (buffer : List UInt8) :
    Not405 (handleProcessSignal s h buffer).sent := by
  have h200 : OtherStatus "200 OK" := by decide
  have h500 : OtherStatus "500 Internal Server Error" := by decide
  unfold handleProcessSignal
  split
  · rename_i status body hreq
    dsimp only
    exact (signalRequest_error hreq).not405 _ _ _
  · split
    · dsimp only
      exact h200.not405 _ _ _
    · dsimp only
      exact h500.not405 _ _ _

/-! ## The answer to a request -/

variable {s : GuiServer} {h : Host} {buffer : List UInt8}

theorem startsWith_iff {buffer lit : List UInt8} : startsWith buffer lit = true ↔ lit <+: buffer :=
  List.isPrefixOf_iff_prefix

/-- A known method is not answered with a 405. -/
theorem StartsWithMethod.not405 (hm : StartsWithMethod buffer) :
    Not405 (respond s h buffer).sent := by
  have h404 : OtherStatus "404 Not Found" := by decide
  unfold respond
  split
  · exact serveFile_not405 _ _ _
  · split
    · exact serveFile_not405 _ _ _
    · split
      · exact serveFile_not405 _ _ _
      · split
        · exact serveMetricsJson_not405 _ _
        · split
          · exact handleProcessSignal_not405 _ _ _
          · split
            · dsimp only
              exact h404.not405 _ _ _
            · rename_i hno
              obtain ⟨m, hmem, hp⟩ := hm
              exfalso
              simp only [Bool.or_eq_true, startsWith_iff, not_or] at hno
              simp only [methods, List.mem_cons, List.not_mem_nil, or_false] at hmem
              rcases hmem with rfl | rfl | rfl | rfl
              · exact hno.1.1.1 hp
              · exact hno.1.1.2 hp
              · exact hno.1.2 hp
              · exact hno.2 hp

/-- Every route begins with a method. -/
theorem respond_of_not_startsWithMethod (hm : ¬ StartsWithMethod buffer) :
    respond s h buffer = notAllowed := by
  have hroute : ∀ route : List UInt8, StartsWithMethod route → startsWith buffer route = false := by
    intro route hr
    rw [Bool.eq_false_iff, ne_eq, startsWith_iff]
    exact fun hp => hm (hr.mono hp)
  have hget : ∀ t, StartsWithMethod (bytes "GET " ++ t) := fun t =>
    ⟨_, by simp [methods], List.prefix_append ..⟩
  have hpost : ∀ t, StartsWithMethod (bytes "POST " ++ t) := fun t =>
    ⟨_, by simp [methods], List.prefix_append ..⟩
  unfold respond
  rw [hroute (bytes "GET / ") (hget (bytes "/ ")),
    hroute (bytes "GET /index.html") (hget (bytes "/index.html")),
    hroute (bytes "GET /style.css") (hget (bytes "/style.css")),
    hroute (bytes "GET /app.js") (hget (bytes "/app.js")),
    hroute (bytes "GET /api/metrics") (hget (bytes "/api/metrics")),
    hroute (bytes "POST /api/process/signal") (hpost (bytes "/api/process/signal")),
    hroute (bytes "GET ") ⟨_, by simp [methods], List.prefix_rfl⟩,
    hroute (bytes "POST ") ⟨_, by simp [methods], List.prefix_rfl⟩,
    hroute (bytes "PUT ") ⟨_, by simp [methods], List.prefix_rfl⟩,
    hroute (bytes "DELETE ") ⟨_, by simp [methods], List.prefix_rfl⟩]
  rfl

/-- A segment that comes first decides. -/
theorem clientThreadWorker_cons {g : List UInt8} (hg : g ≠ []) (gs : List (List UInt8)) :
    clientThreadWorker s h (g :: gs) = respond s h (cstr (g.take (bufferSize - 1))) := by
  unfold clientThreadWorker
  simp only
  rw [if_neg]
  · rfl
  · show g.take (bufferSize - 1) ≠ []
    simp [hg, bufferSize]

theorem worker_of_not_startsWithMethod {g : List UInt8} (hg : g ≠ [])
    (hm : ¬ StartsWithMethod g) (gs : List (List UInt8)) :
    clientThreadWorker s h (g :: gs) = notAllowed := by
  rw [clientThreadWorker_cons hg]
  apply respond_of_not_startsWithMethod
  rw [startsWithMethod_cstr]
  exact fun ht => hm (ht.mono (List.take_prefix ..))

/-- **Segmentation.**  The outcome for a request is independent of how it is cut into
segments if and only if it begins with none of the methods `GET`, `POST`, `PUT` and
`DELETE` and a blank: those that are answered with a 405. -/
theorem segmentation_independent_iff (s : GuiServer) (h : Host) (request : List UInt8) :
    SegmentationIndependent s h request ↔ ¬ StartsWithMethod request := by
  constructor
  · intro hind hm
    cases request with
    | nil => exact absurd (hm.mono (List.nil_prefix (l := [0]))) (not_startsWithMethod_singleton 0)
    | cons b rest =>
      have hrest : rest ≠ [] := by
        rintro rfl
        exact not_startsWithMethod_singleton b hm
      have heq := hind [[b], rest] (by simp) (by simp [hrest])
      rw [worker_of_not_startsWithMethod (by simp) (not_startsWithMethod_singleton b),
        clientThreadWorker_cons (by simp)] at heq
      have hm' : StartsWithMethod (cstr ((b :: rest).take (bufferSize - 1))) :=
        startsWithMethod_cstr.mpr (hm.take (by decide))
      have h405 := hm'.not405 (s := s) (h := h)
      rw [← heq] at h405
      exact h405 notAllowed_sent
  · rintro hm segments rfl hne
    cases segments with
    | nil => rfl
    | cons g gs =>
      have hg : g ≠ [] := hne g (List.mem_cons_self ..)
      have hg' : ¬ StartsWithMethod g := fun hs => hm (hs.mono (by simp))
      rw [worker_of_not_startsWithMethod hg hg', worker_of_not_startsWithMethod (by simp [hg]) hm]

/-- A server with a token, on a host where everything succeeds. -/
def demoServer : GuiServer := ⟨bytes "secret", none⟩

def demoHost : Host := ⟨fun _ => .missing, fun _ _ => true, fun _ => true, fun _ => bytes "0.00"⟩

/-- The head of a request to signal a process, with a body of that length. -/
def signalHead (length : String) : List UInt8 :=
  bytes "POST /api/process/signal HTTP/1.1\r\nHost: localhost\r\n" ++
  bytes "X-Auth-Token: secret\r\nContent-Length: " ++ bytes length ++ bytes "\r\n\r\n"

/-- A request that kills process 42: its head and its body. -/
def killHead : List UInt8 := signalHead "29"

def killBody : List UInt8 := bytes "\x7b\"pid\":42,\"signal\":\"SIGKILL\"\x7d"

/-- **A body in a segment of its own is lost.**  In one segment the request is obeyed;
when the body comes in a second one, it is refused. -/
theorem segmentation_changes_signal :
    ¬ SegmentationIndependent demoServer demoHost (killHead ++ killBody) ∧
      (clientThreadWorker demoServer demoHost [killHead ++ killBody]).signal = some (42, 9) ∧
      (clientThreadWorker demoServer demoHost [killHead, killBody]).signal = none := by
  refine ⟨fun hind => ?_, by decide +kernel, by decide +kernel⟩
  have heq := hind [killHead, killBody] (by simp) (by decide)
  exact absurd (congrArg Outcome.signal heq) (by decide +kernel)

end MemoryMonitor
