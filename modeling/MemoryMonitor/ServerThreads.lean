import MemoryMonitor.Machine

/-! # The threads of the HTTP server (`gui_server.c`)

`gui_server_worker` accepts connections and starts a thread `client_thread_worker` for
each; `active_workers`, under `worker_mutex`, counts the connections on their way.  The
thread that called `gui_server_start` later calls `gui_server_stop`, which clears
`is_running`, joins the accept loop, waits until the count is 0 and then destroys the
locks and frees the snapshot.

A step of the machine is one access to what the threads share.  Reading and writing
`active_workers` are two steps, and a thread that finds the mutex taken stays where it
is.  `pthread_cond_wait` may wake at any time, as POSIX allows, so a broadcast needs no
state of its own.  What a client sends and what it is answered is left to the module on
the connections; here a worker reads the snapshot or it does not.
-/
namespace MemoryMonitor

/-- `MAX_CLIENT_WORKERS`. -/
def maxClientWorkers : Int := 32

/-- The lines that take a connection out of the count, at the end of
`client_thread_worker` and on the failure exits of the accept loop. -/
inductive Leave where
  | lock
  | load
  | store (v : Int)
  /-- `pthread_cond_broadcast` and `pthread_mutex_unlock`. -/
  | unlock
deriving DecidableEq, Repr

/-- How far a connection is that was counted. -/
inductive Stage where
  /-- The accept loop has it and has not started its thread. -/
  | inHand
  /-- Its worker receives the request and answers it. -/
  | serving
  /-- Its worker is in `serve_metrics_json`, under `snapshot_lock`. -/
  | reading
  | leaving (l : Leave)
  | finished
deriving DecidableEq, Repr

/-- A connection that was counted, and how often it was taken out of the count. -/
structure Conn where
  stage : Stage
  decrements : Nat
deriving DecidableEq, Repr

/-- Where `gui_server_worker` is. -/
inductive Acceptor where
  | absent
  /-- `while (server->is_running)`. -/
  | loop
  | accept
  /-- `accept` failed and `errno` is none of those the loop ignores. -/
  | acceptFailed
  /-- A client has connected; the mutex comes next. -/
  | lock
  | compare
  /-- The server is busy: the mutex is released, then 503 is sent. -/
  | busy
  | reject
  | increment (v : Int)
  | unlock (i : Nat)
  | malloc (i : Nat)
  | attrInit (i : Nat)
  | setDetachState (i : Nat)
  | create (i : Nat)
  /-- A failure exit; `created` when it is the one of `pthread_create`. -/
  | undo (i : Nat) (created : Bool)
  | attrDestroy
  | exited
deriving DecidableEq, Repr

/-- Where the thread is that starts and stops the server. -/
inductive Control where
  /-- After `gui_server_init`, or after a start that failed. -/
  | ready
  /-- `is_running` is set and the accept loop's thread comes next. -/
  | create
  | started
  /-- In `gui_server_stop`: `is_running` is cleared and the socket closed. -/
  | join
  | lock
  | compare
  /-- In `pthread_cond_wait`. -/
  | wait
  | unlock
  | destroyMutex
  | destroyRwlock
  | free
  | stopped
deriving DecidableEq, Repr

/-- Who is inside `worker_mutex`. -/
inductive Holder where
  | acceptor
  /-- The thread that takes connection `i` out of the count. -/
  | conn (i : Nat)
  | control
deriving DecidableEq, Repr

/-- The part of `gui_server_t` that the threads share, and where they are. -/
structure ServerThreads where
  isRunning : Bool := false
  activeWorkers : Int := 0
  mutex : Option Holder := none
  /-- `worker_mutex` and `worker_cond` exist. -/
  workerLocks : Bool := true
  /-- `snapshot_lock` exists. -/
  snapshotLock : Bool := true
  /-- `latest_snapshot` is allocated. -/
  latestSnapshot : Bool := true
  acceptor : Acceptor := .absent
  conns : List Conn := []
  control : Control := .ready
deriving DecidableEq, Repr

/-- Undefined behaviour. -/
inductive ThreadFault where
  /-- A lock is used that was destroyed. -/
  | destroyedLock
  /-- A lock is destroyed that is held. -/
  | heldLock
  /-- The snapshot is read after it was freed. -/
  | freedSnapshot
deriving DecidableEq, Repr

/-- What a system call answers. -/
inductive Answer where
  | ok
  /-- `EAGAIN`, `EWOULDBLOCK` or `EINTR`. -/
  | again
  | error
deriving DecidableEq, Repr

/-- The thread that takes a step, and what its call finds. -/
inductive Move where
  | acceptor (a : Answer)
  /-- The worker of connection `i`; `metrics` when it was asked for the metrics. -/
  | worker (i : Nat) (metrics : Bool)
  /-- `gui_server_start`; without `listening` it returns before it sets `is_running`. -/
  | start (listening : Bool)
  | stop
  /-- The thread of `gui_server_start` and `gui_server_stop` goes on. -/
  | control (a : Answer)
deriving DecidableEq, Repr

namespace ServerThreads

/-- `pthread_mutex_lock(&server->worker_mutex)`, and where the holder goes on. -/
def lock (s : ServerThreads) (who : Holder) (go : ServerThreads → ServerThreads) :
    Except ThreadFault ServerThreads :=
  if s.workerLocks = false then .error .destroyedLock
  else if s.mutex = none then .ok (go { s with mutex := some who })
  else .ok s

def setStage (s : ServerThreads) (i : Nat) (stage : Stage) : ServerThreads :=
  { s with conns := s.conns.modify i fun c => { c with stage := stage } }

/-- One step of taking connection `i` out of the count. -/
def leave (s : ServerThreads) (i : Nat) : Leave → Except ThreadFault ServerThreads
  | .lock => s.lock (.conn i) fun s => s.setStage i (.leaving .load)
  | .load => .ok (s.setStage i (.leaving (.store s.activeWorkers)))
  | .store v => .ok { s with
      activeWorkers := v - 1
      conns := s.conns.modify i fun c => ⟨.leaving .unlock, c.decrements + 1⟩ }
  | .unlock =>
    if s.workerLocks = false then .error .destroyedLock
    else .ok { s.setStage i .finished with mutex := none }

/-- A call of the accept loop about connection `i`: it goes on, or undoes the count. -/
def orUndo (s : ServerThreads) (a : Answer) (i : Nat) (next : Acceptor) (created : Bool) :
    ServerThreads :=
  if a = .ok then { s with acceptor := next }
  else { s.setStage i (.leaving .lock) with acceptor := .undo i created }

/-- One step of `gui_server_worker`. -/
def acceptorStep (s : ServerThreads) (a : Answer) : Except ThreadFault ServerThreads :=
  match s.acceptor with
  | .absent => .ok s
  | .loop => .ok { s with acceptor := if s.isRunning then .accept else .exited }
  | .accept =>
    match a with
    | .ok => .ok { s with acceptor := .lock }
    | .again => .ok { s with acceptor := .loop }
    | .error => .ok { s with acceptor := .acceptFailed }
  | .acceptFailed => .ok { s with acceptor := if s.isRunning then .loop else .exited }
  | .lock => s.lock .acceptor fun s => { s with acceptor := .compare }
  | .compare =>
    if maxClientWorkers ≤ s.activeWorkers then .ok { s with acceptor := .busy }
    else .ok { s with acceptor := .increment s.activeWorkers }
  | .busy => .ok { s with mutex := none, acceptor := .reject }
  | .reject => .ok { s with acceptor := .loop }
  | .increment v => .ok { s with
      activeWorkers := v + 1
      conns := s.conns ++ [⟨.inHand, 0⟩]
      acceptor := .unlock s.conns.length }
  | .unlock i => .ok { s with mutex := none, acceptor := .malloc i }
  | .malloc i => .ok (s.orUndo a i (.attrInit i) false)
  | .attrInit i => .ok (s.orUndo a i (.setDetachState i) false)
  | .setDetachState i => .ok (s.orUndo a i (.create i) false)
  | .create i =>
    if a = .ok then .ok { s.setStage i .serving with acceptor := .attrDestroy }
    else .ok (s.orUndo a i .attrDestroy true)
  | .undo i created =>
    match s.conns[i]?.map Conn.stage with
    | some (.leaving l) => s.leave i l
    | _ => .ok { s with acceptor := if created then .attrDestroy else .loop }
  | .attrDestroy => .ok { s with acceptor := .loop }
  | .exited => .ok s

/-- The accept loop is on a failure exit with connection `i`. -/
def Undoing (s : ServerThreads) (i : Nat) : Prop :=
  s.acceptor = .undo i false ∨ s.acceptor = .undo i true

instance (s : ServerThreads) (i : Nat) : Decidable (s.Undoing i) := by
  unfold Undoing
  infer_instance

/-- One step of `client_thread_worker`; the connections in the accept loop's hands have no
such thread. -/
def workerStep (s : ServerThreads) (i : Nat) (metrics : Bool) : Except ThreadFault ServerThreads :=
  if s.Undoing i then .ok s
  else
    match s.conns[i]?.map Conn.stage with
    | some .serving =>
      if metrics then
        if s.snapshotLock = false then .error .destroyedLock else .ok (s.setStage i .reading)
      else .ok (s.setStage i (.leaving .lock))
    | some .reading =>
      if s.latestSnapshot = false then .error .freedSnapshot
      else .ok (s.setStage i (.leaving .lock))
    | some (.leaving l) => s.leave i l
    | _ => .ok s

/-- The entry of `gui_server_start`. -/
def startStep (s : ServerThreads) (listening : Bool) : ServerThreads :=
  if s.control = .ready ∧ listening then { s with isRunning := true, control := .create } else s

/-- The entry of `gui_server_stop`. -/
def stopStep (s : ServerThreads) : ServerThreads :=
  match s.control with
  | .ready | .started =>
    if s.isRunning then { s with isRunning := false, control := .join }
    else { s with control := .destroyMutex }
  | _ => s

/-- The rest of `gui_server_start` and `gui_server_stop`. -/
def controlStep (s : ServerThreads) (a : Answer) : Except ThreadFault ServerThreads :=
  match s.control with
  | .ready => .ok s
  | .create =>
    if a = .ok then .ok { s with acceptor := .loop, control := .started }
    else .ok { s with isRunning := false, control := .ready }
  | .started => .ok s
  | .join => if s.acceptor = .exited then .ok { s with control := .lock } else .ok s
  | .lock => s.lock .control fun s => { s with control := .compare }
  | .compare =>
    if 0 < s.activeWorkers then .ok { s with mutex := none, control := .wait }
    else .ok { s with control := .unlock }
  | .wait => s.lock .control fun s => { s with control := .compare }
  | .unlock => .ok { s with mutex := none, control := .destroyMutex }
  | .destroyMutex =>
    if s.mutex ≠ none then .error .heldLock
    else .ok { s with workerLocks := false, control := .destroyRwlock }
  | .destroyRwlock =>
    if s.conns.any fun c => c.stage = .reading then .error .heldLock
    else .ok { s with snapshotLock := false, control := .free }
  | .free => .ok { s with latestSnapshot := false, control := .stopped }
  | .stopped => .ok s

/-- One step of one of the threads. -/
def step (s : ServerThreads) : Move → Except ThreadFault (ServerThreads × Unit)
  | .acceptor a => (s.acceptorStep a).map (·, ())
  | .worker i metrics => (s.workerStep i metrics).map (·, ())
  | .start listening => .ok (s.startStep listening, ())
  | .stop => .ok (s.stopStep, ())
  | .control a => (s.controlStep a).map (·, ())

end ServerThreads

/-- The threads in any order, with any answers. -/
def serverThreads : Runs.Machine ServerThreads Move Unit ThreadFault :=
  ⟨fun _ _ => True, ServerThreads.step⟩

/-- `gui_server_init` has succeeded. -/
def ServerThreads.Initialised (s : ServerThreads) : Prop := s = {}

end MemoryMonitor
