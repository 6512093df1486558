import MemoryMonitor.CommandLine

/-! # The start of the program (`main.c`, `gui_server_init`)

After the options, `main` makes up a token unless it was given one, prepares the sampler and
starts the server, and gives up with status 1 where a call fails.  With `--json` it prints
one snapshot and exits instead.
-/
namespace MemoryMonitor

open CString

/-! ## The token -/

/-- `hex_chars[i]`. -/
def hexChar (i : UInt8) : UInt8 := (bytes "0123456789abcdef").getD i.toNat 0

/-- The two digits of a byte. -/
def hexPair (b : UInt8) : List UInt8 := [hexChar (b >>> 4 &&& 0x0F), hexChar (b &&& 0x0F)]

/-- The loop of `generate_random_token` with `pos` digits written. -/
def tokenLoop (len : Nat) : Nat → List UInt8 → List UInt8
  | _, [] => []
  | pos, b :: bs => if pos + 2 < len then hexPair b ++ tokenLoop len (pos + 2) bs else []

/-- `generate_random_token`, with what `open("/dev/urandom")` and `read` give. -/
def generateRandomToken (urandom : Option (List UInt8)) (len : Nat) : Option (List UInt8) :=
  match urandom with
  | none => none
  | some read => if read.length = 32 then some (tokenLoop len 0 read) else none

/-! ## `main` -/

/-- `gui_server_t`, as `gui_server_init` leaves it. -/
structure ServerConfig where
  bindHost : List UInt8
  port : Int
  authToken : List UInt8
deriving DecidableEq, Repr

/-- `gui_server_init`; `ok` when its calls of the system succeed. -/
def guiServerInit (host : List UInt8) (port : Int) (authToken : List UInt8) (ok : Bool) :
    Option ServerConfig :=
  if port ≤ 0 ∨ 65535 < port then none
  else if 64 ≤ host.length then none
  else if maxAuthTokenLen ≤ authToken.length then none
  else if ok = false then none
  else some ⟨if 0 < host.length then host else bytes "127.0.0.1", port, authToken⟩

/-- What the calls of `main` find. -/
structure Surroundings where
  urandom : Option (List UInt8)
  sigaction : Bool
  /-- What `sysconf(_SC_NPROCESSORS_ONLN)` says. -/
  cores : Int
  /-- `/proc/stat` when the sampler is prepared. -/
  stat : File
  /-- The snapshot can be allocated. -/
  malloc : Bool
  /-- `/proc` for the snapshot of `--json`. -/
  proc : ProcFs
  /-- What `%.2f` prints for a percentage. -/
  fixed : Percent → List UInt8
  /-- The calls in `gui_server_init` succeed. -/
  serverInit : Bool
  /-- `gui_server_start` succeeds: the address is valid, `bind`, `listen` and the thread. -/
  serverStart : ServerConfig → Bool

/-- How `main` goes on: it returns, with what it wrote to `stdout`, or its server runs. -/
inductive Launch where
  | exited (status : Int) (stdout : List UInt8)
  | serving (server : ServerConfig) (headless : Bool)

/-- What `--json` prints. -/
def jsonReport (fixed : Percent → List UInt8) (snapshot : SystemSnapshot) : List UInt8 :=
  bytes "\x7b\n  \"cpu\": \x7b\"total_usage_pct\": " ++ fixed snapshot.cpu.totalUsagePct ++
  bytes ", \"core_count\": " ++ decimalInt snapshot.cpu.coreCount ++ bytes "\x7d,\n" ++
  bytes "  \"mem\": \x7b\"mem_total_kb\": " ++ decimal snapshot.mem.memTotalKb ++
  bytes ", \"mem_available_kb\": " ++ decimal snapshot.mem.memAvailableKb ++
  bytes ", \"mem_usage_pct\": " ++ fixed snapshot.mem.memUsagePct ++ bytes "\x7d,\n" ++
  bytes "  \"process_count\": " ++ decimal snapshot.procs.length ++ bytes "\n\x7d\n"

/-- The token that the server gets. -/
def tokenOf (o : Options) (urandom : Option (List UInt8)) : Option (List UInt8) :=
  if o.tokenProvided = false ∨ o.authToken = [] then generateRandomToken urandom maxAuthTokenLen
  else some o.authToken

/-- `main` up to its loop. -/
def main (program : List UInt8) (args : List (List UInt8)) (env : Surroundings) : Launch :=
  match options program args {} with
  | .error e => .exited e.status []
  | .ok o =>
    match tokenOf o env.urandom with
    | none => .exited 1 []
    | some token =>
      if env.sigaction = false then .exited 1 []
      else
        match Parser.init {} env.cores env.stat with
        | none => .exited 1 []
        | some g =>
          if env.malloc = false then .exited 1 []
          else if o.outputJson then
            match (g.takeSnapshot env.proc).1 with
            | none => .exited 1 []
            | some snapshot => .exited 0 (jsonReport env.fixed snapshot)
          else
            match guiServerInit o.bindHost o.port token env.serverInit with
            | none => .exited 1 []
            | some server =>
              if env.serverStart server then .serving server o.headless else .exited 1 []

/-! ## What is known of the token -/

theorem tokenLoop_eq {len pos : Nat} {bs : List UInt8} (h : pos + 2 * bs.length < len) :
    tokenLoop len pos bs = bs.flatMap hexPair := by
  induction bs generalizing pos with
  | nil => rfl
  | cons b bs ih =>
    rw [List.length_cons] at h
    rw [tokenLoop, if_pos (by omega), ih (by omega), List.flatMap_cons]

/-- A byte can be read off its digits. -/
theorem hexPair_injective {b b' : UInt8} (h : hexPair b = hexPair b') : b = b' := by
  let value : List UInt8 → UInt8 := fun l => UInt8.ofNat
    (16 * (bytes "0123456789abcdef").idxOf (l.getD 0 0) +
      (bytes "0123456789abcdef").idxOf (l.getD 1 0))
  have hvalue : ∀ c : UInt8, value (hexPair c) = c := by
    refine forall_byte ?_
    decide +kernel
  rw [← hvalue b, h, hvalue b']

/-- **Different random bytes give different tokens.** -/
theorem hexPairs_injective {bs bs' : List UInt8} (h : bs.flatMap hexPair = bs'.flatMap hexPair) :
    bs = bs' := by
  induction bs generalizing bs' with
  | nil =>
    cases bs' with
    | nil => rfl
    | cons b' bs' => cases h
  | cons b bs ih =>
    cases bs' with
    | nil => cases h
    | cons b' bs' =>
      rw [List.flatMap_cons, List.flatMap_cons] at h
      obtain ⟨h1, h2⟩ := List.append_inj h rfl
      rw [hexPair_injective h1, ih h2]

theorem generateRandomToken_some {urandom : Option (List UInt8)} {token : List UInt8}
    (h : generateRandomToken urandom maxAuthTokenLen = some token) :
    ∃ read, urandom = some read ∧ read.length = 32 ∧ token = read.flatMap hexPair := by
  unfold generateRandomToken at h
  split at h
  · cases h
  · rename_i read
    split at h
    · rename_i hlen
      refine ⟨read, rfl, hlen, ?_⟩
      rw [← Option.some.inj h]
      exact tokenLoop_eq (by rw [hlen]; decide)
    · cases h

/-- A token that was given is the value of a `--token` among the arguments. -/
theorem foldl_token (settings : List Setting) (o : Options) :
    (settings.foldl Setting.set o).authToken = o.authToken ∨
      .token (settings.foldl Setting.set o).authToken ∈ settings := by
  induction settings generalizing o with
  | nil => exact Or.inl rfl
  | cons s settings ih =>
    rcases ih (s.set o) with h | h
    · cases s with
      | token value =>
        refine Or.inr ?_
        rw [List.foldl_cons, h]
        exact List.mem_cons_self ..
      | _ => exact Or.inl h
    · exact Or.inr (List.mem_cons_of_mem _ h)

theorem tokenOf_some {program : List UInt8} {args : List (List UInt8)} {o : Options}
    {urandom : Option (List UInt8)} {token : List UInt8} (ho : options program args {} = .ok o)
    (h : tokenOf o urandom = some token) :
    token ≠ [] ∧ (token ∈ args ∨
      ∃ read, urandom = some read ∧ read.length = 32 ∧ token = read.flatMap hexPair) := by
  unfold tokenOf at h
  split at h
  · obtain ⟨read, hread, hlen, rfl⟩ := generateRandomToken_some h
    refine ⟨?_, Or.inr ⟨read, hread, hlen, rfl⟩⟩
    intro hnil
    cases read with
    | nil => cases hlen
    | cons b bs => cases hnil
  · rename_i hgiven
    obtain rfl := Option.some.inj h
    rw [not_or] at hgiven
    refine ⟨hgiven.2, Or.inl ?_⟩
    obtain ⟨settings, -, rfl, rfl⟩ := options_ok ho
    have hmem := (foldl_token settings {}).resolve_left hgiven.2
    exact List.mem_flatMap.mpr ⟨_, hmem, by simp [Setting.args]⟩

/-! ## The server that is started -/

/-- What `main` has made sure of when its server runs. -/
theorem main_serving {program : List UInt8} {args : List (List UInt8)} {env : Surroundings}
    {server : ServerConfig} {headless : Bool} (h : main program args env = .serving server headless) :
    ∃ o token, options program args {} = .ok o ∧ tokenOf o env.urandom = some token ∧
      guiServerInit o.bindHost o.port token env.serverInit = some server := by
  unfold main at h
  split at h
  · cases h
  · rename_i o ho
    split at h
    · cases h
    · rename_i token htoken
      split at h
      · cases h
      · split at h
        · cases h
        · split at h
          · cases h
          · split at h
            · split at h <;> cases h
            · split at h
              · cases h
              · rename_i server' hserver
                split at h
                · cases h
                  exact ⟨o, token, ho, htoken, hserver⟩
                · cases h

theorem guiServerInit_some {host : List UInt8} {port : Int} {token : List UInt8} {ok : Bool}
    {server : ServerConfig} (h : guiServerInit host port token ok = some server) :
    server.authToken = token ∧ token.length < maxAuthTokenLen ∧ 0 < port ∧ port ≤ 65535 ∧
      server.port = port := by
  unfold guiServerInit at h
  split at h
  · cases h
  · split at h
    · cases h
    · split at h
      · cases h
      · split at h
        · cases h
        · cases h
          exact ⟨rfl, by omega, by omega, by omega, rfl⟩

/-- A worker that calls `signal_send_to_process` has authenticated the request. -/
theorem worker_authenticated {s : GuiServer} {h : Host} {segments : List (List UInt8)} {n sig : Int}
    (hsig : (clientThreadWorker s h segments).signal = some (n, sig)) :
    checkAuth s (cstr (recv segments (bufferSize - 1))) = true := by
  unfold clientThreadWorker at hsig
  dsimp only at hsig
  split at hsig
  · cases hsig
  · unfold respond at hsig
    split at hsig
    · cases hsig
    split at hsig
    · cases hsig
    split at hsig
    · cases hsig
    split at hsig
    · cases hsig
    split at hsig
    · unfold handleProcessSignal at hsig
      split at hsig
      · cases hsig
      · rename_i pid sig' hreq
        exact (signalRequest_ok hreq).1
    split at hsig
    · cases hsig
    · cases hsig

/-- **A server that is started is never open.**  Whatever the arguments and the
surroundings, the server has a token of 1 to 127 bytes, which is one of the arguments or
consists of the digits of 32 random bytes.  It listens on a port from 1 to 65535.  And
whatever is sent to it, it sends a signal only for a request in which a header line presents
the token. -/
theorem signals_need_token {program : List UInt8} {args : List (List UInt8)} {env : Surroundings}
    {server : ServerConfig} {headless : Bool} (h : main program args env = .serving server headless) :
    0 < server.authToken.length ∧ server.authToken.length < maxAuthTokenLen ∧
    0 < server.port ∧ server.port ≤ 65535 ∧
    (server.authToken ∈ args ∨ ∃ read, env.urandom = some read ∧ read.length = 32 ∧
      ∀ read', read'.flatMap hexPair = server.authToken ↔ read' = read) ∧
    ∀ snapshot host segments n sig,
      (clientThreadWorker ⟨server.authToken, snapshot⟩ host segments).signal = some (n, sig) →
      ∃ line ∈ headerLines (cstr (recv segments (bufferSize - 1))),
        PresentsToken server.authToken line := by
  obtain ⟨o, token, ho, htoken, hserver⟩ := main_serving h
  obtain ⟨htok, hlen, hpos, hport, hserverport⟩ := guiServerInit_some hserver
  obtain ⟨hne, hfrom⟩ := tokenOf_some ho htoken
  rw [htok, hserverport]
  refine ⟨List.length_pos_iff.mpr hne, hlen, hpos, hport, hfrom.imp_right ?_, ?_⟩
  · rintro ⟨read, hread, h32, rfl⟩
    exact ⟨read, hread, h32, fun read' => ⟨hexPairs_injective, fun h => by rw [h]⟩⟩
  · intro snapshot host segments n sig hsig
    exact (checkAuth_iff hne _).mp (worker_authenticated hsig)

/-- The surroundings of a machine where everything works. -/
def plainSurroundings : Surroundings where
  urandom := some (List.range 32 |>.map fun n => (8 * n).toUInt8)
  sigaction := true
  cores := 4
  stat := some (bytes "cpu 1 2 3 4")
  malloc := true
  proc := ⟨0, none, none, none⟩
  fixed := fun _ => bytes "0.00"
  serverInit := true
  serverStart := fun _ => true

/-- An empty `--token` does not open the server either. -/
theorem signals_need_token_empty : ∃ server headless,
    main (bytes "monitor") [bytes "--headless", bytes "--token", []] plainSurroundings =
      .serving server headless ∧ 0 < server.authToken.length := by
  have hmain : main (bytes "monitor") [bytes "--headless", bytes "--token", []] plainSurroundings =
      .serving _ _ := rfl
  exact ⟨_, _, hmain, (signals_need_token hmain).1⟩

end MemoryMonitor
