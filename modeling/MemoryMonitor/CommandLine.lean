import MemoryMonitor.SignalContract

/-! # The command line (`main.c`)

`main` goes through its arguments one by one.  An option that takes a value takes the next
argument, whatever it looks like, and where the same variable is set twice the last one
counts.  Anything it does not understand ends the program.

The arguments are a row of settings, and the first one that is none decides how the
program exits (`command_line_iff`).
-/
namespace MemoryMonitor

open CString

def maxAuthTokenLen : Nat := 128

/-! ## The arguments -/

/-- The variables that the options set. -/
structure Options where
  port : Int := 8080
  bindHost : List UInt8 := bytes "127.0.0.1"
  authToken : List UInt8 := []
  tokenProvided : Bool := false
  headless : Bool := false
  outputJson : Bool := false
deriving DecidableEq, Repr

/-- An exit in the middle of the options, and what is printed to `stderr`. -/
structure Exit where
  status : Int
  stderr : List UInt8
deriving DecidableEq, Repr

/-- `print_usage`. -/
def printUsage (program : List UInt8) : List UInt8 :=
  bytes "Usage: " ++ program ++
    bytes " [--headless] [--json] [--port PORT] [--bind ADDRESS] [--token TOKEN]\n"

/-- The options that take a value. -/
def valued : List (List UInt8) := [bytes "--port", bytes "--bind", bytes "--host", bytes "--token"]

/-- The port that a text denotes. -/
def portOf (value : List UInt8) : Option Int :=
  let r := strtol value
  if r.range || r.endptr ≠ [] || r.value ≤ 0 || 65535 < r.value then none else some r.value

/-- One of the options `valued`, with its value. -/
def setValue (name value : List UInt8) (o : Options) : Except Exit Options :=
  if name = bytes "--port" then
    match portOf value with
    | none => .error ⟨2, bytes "Invalid port specified: " ++ value ++ bytes "\n"⟩
    | some port => .ok { o with port := port }
  else if name = bytes "--bind" || name = bytes "--host" then
    if 64 ≤ value.length then .error ⟨2, bytes "Bind address is too long.\n"⟩
    else .ok { o with bindHost := value }
  else if maxAuthTokenLen ≤ value.length then .error ⟨2, bytes "Auth token is too long.\n"⟩
  else .ok { o with authToken := value, tokenProvided := true }

/-- The loop over the arguments. -/
def options (program : List UInt8) : List (List UInt8) → Options → Except Exit Options
  | [], o => .ok o
  | arg :: args, o =>
    if arg = bytes "--headless" then options program args { o with headless := true }
    else if arg = bytes "--json" then
      options program args { o with outputJson := true, headless := true }
    else if arg = bytes "--help" || arg = bytes "-h" then .error ⟨0, printUsage program⟩
    else if arg ∈ valued then
      match args with
      | [] => .error ⟨2, bytes "Missing value for " ++ arg ++ bytes "\n" ++ printUsage program⟩
      | value :: args =>
        match setValue arg value o with
        | .error e => .error e
        | .ok o => options program args o
    else .error ⟨2, bytes "Unknown option: " ++ arg ++ bytes "\n" ++ printUsage program⟩

/-! ## What the arguments say -/

/-- A setting that the arguments may make. -/
inductive Setting where
  | headless
  | json
  | port (text : List UInt8) (n : Int)
  | bind (name host : List UInt8)
  | token (value : List UInt8)

namespace Setting

/-- The arguments that make it. -/
def args : Setting → List (List UInt8)
  | headless => [bytes "--headless"]
  | json => [bytes "--json"]
  | port text _ => [bytes "--port", text]
  | bind name host => [name, host]
  | token value => [bytes "--token", value]

/-- The values that are accepted. -/
def Accepted : Setting → Prop
  | headless => True
  | json => True
  | port text n => portOf text = some n
  | bind name host => (name = bytes "--bind" ∨ name = bytes "--host") ∧ host.length < 64
  | token value => value.length < maxAuthTokenLen

/-- What it sets. -/
def set (o : Options) : Setting → Options
  | headless => { o with headless := true }
  | json => { o with outputJson := true, headless := true }
  | port _ n => { o with port := n }
  | bind _ host => { o with bindHost := host }
  | token value => { o with authToken := value, tokenProvided := true }

end Setting

/-- Arguments that do not begin with an accepted setting, and how the program exits. -/
inductive Refused (program : List UInt8) : List (List UInt8) → Exit → Prop
  | help {arg : List UInt8} (rest : List (List UInt8))
      (h : arg = bytes "--help" ∨ arg = bytes "-h") : Refused program (arg :: rest) ⟨0, printUsage program⟩
  | unknown {arg : List UInt8} (rest : List (List UInt8))
      (h : arg ∉ [bytes "--headless", bytes "--json", bytes "--help", bytes "-h"] ++ valued) :
      Refused program (arg :: rest)
        ⟨2, bytes "Unknown option: " ++ arg ++ bytes "\n" ++ printUsage program⟩
  | missing {arg : List UInt8} (h : arg ∈ valued) : Refused program [arg]
      ⟨2, bytes "Missing value for " ++ arg ++ bytes "\n" ++ printUsage program⟩
  | port {value : List UInt8} (rest : List (List UInt8)) (h : portOf value = none) :
      Refused program (bytes "--port" :: value :: rest)
        ⟨2, bytes "Invalid port specified: " ++ value ++ bytes "\n"⟩
  | bind {name value : List UInt8} (rest : List (List UInt8))
      (hname : name = bytes "--bind" ∨ name = bytes "--host") (h : 64 ≤ value.length) :
      Refused program (name :: value :: rest) ⟨2, bytes "Bind address is too long.\n"⟩
  | token {value : List UInt8} (rest : List (List UInt8)) (h : maxAuthTokenLen ≤ value.length) :
      Refused program (bytes "--token" :: value :: rest) ⟨2, bytes "Auth token is too long.\n"⟩

section Spec
variable {program : List UInt8}

/-- An accepted setting is made, and the loop goes on behind it. -/
theorem options_setting {s : Setting} (hs : s.Accepted) (rest : List (List UInt8)) (o : Options) :
    options program (s.args ++ rest) o = options program rest (s.set o) := by
  rw [options.eq_def]
  cases s with
  | headless => rfl
  | json => rfl
  | port text n =>
    have hport : portOf text = some n := hs
    simp only [Setting.args, List.cons_append, List.nil_append, setValue, hport]
    rfl
  | bind name host =>
    obtain ⟨hname, hlen⟩ := hs
    simp only [Setting.args, List.cons_append, List.nil_append]
    rcases hname with rfl | rfl
    · simp only [setValue, if_neg (Nat.not_le.mpr hlen)]
      rfl
    · simp only [setValue, if_neg (Nat.not_le.mpr hlen)]
      rfl
  | token value =>
    have hlen : ¬ maxAuthTokenLen ≤ value.length := Nat.not_le.mpr hs
    simp only [Setting.args, List.cons_append, List.nil_append, setValue, if_neg hlen]
    rfl

/-- Where there is no accepted setting, the program exits. -/
theorem Refused.options_eq {rest : List (List UInt8)} {e : Exit} (h : Refused program rest e)
    (o : Options) : options program rest o = .error e := by
  rw [options.eq_def]
  cases h with
  | help rest h => rcases h with rfl | rfl <;> rfl
  | unknown rest h =>
    simp only [List.mem_append, List.mem_cons, List.not_mem_nil, or_false, not_or] at h
    obtain ⟨⟨h1, h2, h3, h4⟩, h5⟩ := h
    simp only [if_neg h1, if_neg h2, decide_eq_false h3, decide_eq_false h4, Bool.or_self,
      Bool.false_eq_true, if_false, if_neg h5]
  | missing h =>
    simp only [valued, List.mem_cons, List.not_mem_nil, or_false] at h
    rcases h with rfl | rfl | rfl | rfl <;> rfl
  | port rest h =>
    simp only [setValue, h]
    rfl
  | bind rest hname h =>
    rcases hname with rfl | rfl
    · simp only [setValue, if_pos h]
      rfl
    · simp only [setValue, if_pos h]
      rfl
  | token rest h =>
    simp only [setValue, if_pos h]
    rfl

/-- Arguments are at their end, begin with an accepted setting, or are refused. -/
theorem args_cases (program : List UInt8) (args : List (List UInt8)) :
    args = [] ∨ (∃ s : Setting, s.Accepted ∧ ∃ rest, args = s.args ++ rest) ∨
      ∃ e, Refused program args e := by
  match args with
  | [] => exact Or.inl rfl
  | arg :: args =>
    right
    by_cases hknown : arg ∈ [bytes "--headless", bytes "--json", bytes "--help", bytes "-h"] ++ valued
    · rw [List.mem_append] at hknown
      rcases hknown with h | h
      · simp only [List.mem_cons, List.not_mem_nil, or_false] at h
        rcases h with rfl | rfl | rfl | rfl
        · exact Or.inl ⟨.headless, trivial, args, rfl⟩
        · exact Or.inl ⟨.json, trivial, args, rfl⟩
        · exact Or.inr ⟨_, .help args (Or.inl rfl)⟩
        · exact Or.inr ⟨_, .help args (Or.inr rfl)⟩
      · cases args with
        | nil => exact Or.inr ⟨_, .missing h⟩
        | cons value args =>
          have hbind : ∀ name, name = bytes "--bind" ∨ name = bytes "--host" →
              (∃ s : Setting, s.Accepted ∧ ∃ rest, name :: value :: args = s.args ++ rest) ∨
                ∃ e, Refused program (name :: value :: args) e := by
            intro name hname
            by_cases hlen : 64 ≤ value.length
            · exact Or.inr ⟨_, .bind args hname hlen⟩
            · exact Or.inl ⟨.bind name value, ⟨hname, Nat.lt_of_not_le hlen⟩, args, rfl⟩
          simp only [valued, List.mem_cons, List.not_mem_nil, or_false] at h
          rcases h with rfl | rfl | rfl | rfl
          · cases hport : portOf value with
            | none => exact Or.inr ⟨_, .port args hport⟩
            | some n => exact Or.inl ⟨.port value n, hport, args, rfl⟩
          · exact hbind _ (Or.inl rfl)
          · exact hbind _ (Or.inr rfl)
          · by_cases hlen : maxAuthTokenLen ≤ value.length
            · exact Or.inr ⟨_, .token args hlen⟩
            · exact Or.inl ⟨.token value, Nat.lt_of_not_le hlen, args, rfl⟩
    · exact Or.inr ⟨_, .unknown args hknown⟩

/-- The arguments of several settings in a row. -/
def argsOf (settings : List Setting) : List (List UInt8) := settings.flatMap Setting.args

theorem options_settings {settings : List Setting} (hs : ∀ s ∈ settings, s.Accepted)
    (rest : List (List UInt8)) (o : Options) :
    options program (argsOf settings ++ rest) o =
      options program rest (settings.foldl Setting.set o) := by
  induction settings generalizing o with
  | nil => rfl
  | cons s settings ih =>
    obtain ⟨hs, hrest⟩ := List.forall_mem_cons.mp hs
    rw [argsOf, List.flatMap_cons, List.append_assoc, options_setting hs]
    exact ih hrest _

/-- **Every argument list is a row of accepted settings**, up to its end or to where it is
refused. -/
theorem exists_settings (program : List UInt8) (args : List (List UInt8)) :
    ∃ settings : List Setting, (∀ s ∈ settings, s.Accepted) ∧
      (args = argsOf settings ∨ ∃ rest e, args = argsOf settings ++ rest ∧ Refused program rest e) := by
  induction hn : args.length using Nat.strongRecOn generalizing args with
  | ind n ih =>
    rcases args_cases program args with rfl | ⟨s, hs, rest, rfl⟩ | ⟨e, he⟩
    · exact ⟨[], by simp, Or.inl rfl⟩
    · have hpos : 0 < s.args.length := by cases s <;> simp [Setting.args]
      rw [List.length_append] at hn
      obtain ⟨settings, hall, hrest⟩ := ih rest.length (by omega) rest rfl
      refine ⟨s :: settings, List.forall_mem_cons.mpr ⟨hs, hall⟩, ?_⟩
      rcases hrest with rfl | ⟨rest', e, rfl, he⟩
      · exact Or.inl rfl
      · exact Or.inr ⟨rest', e, by simp [argsOf], he⟩
    · exact ⟨[], by simp, Or.inr ⟨args, e, rfl, he⟩⟩

theorem options_argsOf {settings : List Setting} (hs : ∀ s ∈ settings, s.Accepted) :
    options program (argsOf settings) {} = .ok (settings.foldl Setting.set {}) := by
  rw [← List.append_nil (argsOf settings), options_settings hs]
  rfl

theorem options_refused {settings : List Setting} (hs : ∀ s ∈ settings, s.Accepted)
    {rest : List (List UInt8)} {e : Exit} (he : Refused program rest e) :
    options program (argsOf settings ++ rest) {} = .error e := by
  rw [options_settings hs, he.options_eq]

/-- Arguments that were accepted are a row of settings. -/
theorem options_ok {args : List (List UInt8)} {o : Options} (h : options program args {} = .ok o) :
    ∃ settings : List Setting, (∀ s ∈ settings, s.Accepted) ∧ args = argsOf settings ∧
      o = settings.foldl Setting.set {} := by
  obtain ⟨settings, hs, rfl | ⟨rest, e, rfl, he⟩⟩ := exists_settings program args
  · rw [options_argsOf hs] at h
    exact ⟨settings, hs, rfl, (Except.ok.inj h).symm⟩
  · rw [options_refused hs he] at h
    cases h

/-- **The command line.**  The arguments are accepted exactly when they are a row of
accepted settings, and then each variable has what was set last.  Otherwise the program
exits as the first argument says that does not begin one. -/
theorem command_line_iff (program : List UInt8) (args : List (List UInt8)) :
    (∀ o, options program args {} = .ok o ↔
      ∃ settings : List Setting, (∀ s ∈ settings, s.Accepted) ∧ args = argsOf settings ∧
        o = settings.foldl Setting.set {}) ∧
    ∀ e, options program args {} = .error e ↔
      ∃ (settings : List Setting) (rest : List (List UInt8)), (∀ s ∈ settings, s.Accepted) ∧
        args = argsOf settings ++ rest ∧ Refused program rest e := by
  refine ⟨fun o => ⟨options_ok, ?_⟩, fun e => ⟨fun h => ?_, ?_⟩⟩
  · rintro ⟨settings, hs, rfl, rfl⟩
    exact options_argsOf hs
  · obtain ⟨settings, hs, rfl | ⟨rest, e', rfl, he⟩⟩ := exists_settings program args
    · rw [options_argsOf hs] at h
      cases h
    · rw [options_refused hs he] at h
      obtain rfl := Except.error.inj h
      exact ⟨settings, rest, hs, rfl, he⟩
  · rintro ⟨settings, rest, hs, rfl, he⟩
    exact options_refused hs he

end Spec

end MemoryMonitor
