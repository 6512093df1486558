import Mathlib.Algebra.Order.Ring.Int

/-! # C strings

A C string is the list of its bytes before the terminating NUL, and a pointer into one
is the rest of the list.  The functions of the C library that search, compare and
convert such strings, in the C locale, are functions on lists.  `sscanf` interprets its
format, and so takes the source's own format strings.
-/
namespace CString

/-- The bytes of a string literal. -/
def bytes (s : String) : List UInt8 := s.toList.map fun c => c.toNat.toUInt8

/-- The C string at the start of a buffer. -/
def cstr (buf : List UInt8) : List UInt8 := buf.takeWhile (· ≠ 0)

/-- `isspace`. -/
def isSpace (b : UInt8) : Bool := b = 32 || (9 ≤ b && b ≤ 13)

/-- `isdigit`. -/
def isDigit (b : UInt8) : Bool := 48 ≤ b && b ≤ 57

/-- `tolower`. -/
def toLower (b : UInt8) : UInt8 := if 65 ≤ b && b ≤ 90 then b + 32 else b

/-! ## Searching and comparing -/

/-- `strstr`: what comes before the first occurrence of the needle, and the string from
there on. -/
def strstr (needle : List UInt8) : List UInt8 → Option (List UInt8 × List UInt8)
  | [] => if needle = [] then some ([], []) else none
  | c :: s =>
    if needle.isPrefixOf (c :: s) then some ([], c :: s)
    else (strstr needle s).map fun r => (c :: r.1, r.2)

/-- `strncmp(s, lit, strlen(lit)) == 0`. -/
def startsWith (s lit : List UInt8) : Bool := lit.isPrefixOf s

/-- `strncasecmp(s, lit, strlen(lit)) == 0`. -/
def startsWithIgnoringCase (s lit : List UInt8) : Bool :=
  (lit.map toLower).isPrefixOf (s.map toLower)

/-- `strchr`, as an index. -/
def strchr (s : List UInt8) (c : UInt8) : Option Nat := s.findIdx? (· = c)

/-- `strrchr`, as an index. -/
def strrchr (s : List UInt8) (c : UInt8) : Option Nat :=
  (s.reverse.findIdx? (· = c)).map fun i => s.length - 1 - i

/-- The lines that `strtok_r` with the delimiter `"\n"` finds: none is empty. -/
def strtokLines (s : List UInt8) : List (List UInt8) :=
  (s.splitOnP (· = 10)).filter (· ≠ [])

/-! ## Numbers -/

/-- The number that a list of decimal digits denotes. -/
def ofDigits (ds : List UInt8) : Nat := ds.foldl (fun n d => 10 * n + (d.toNat - 48)) 0

/-- A sign, if there is one: whether it is a minus, and the rest. -/
def sign : List UInt8 → Bool × List UInt8
  | 45 :: s => (true, s)
  | 43 :: s => (false, s)
  | s => (false, s)

/-- Blanks, a sign, decimal digits: the number and the rest, or `none` when there is no
digit. -/
def scanInt (s : List UInt8) : Option (Int × List UInt8) :=
  let (neg, t) := sign (s.dropWhile isSpace)
  let ds := t.takeWhile isDigit
  if ds = [] then none
  else some (if neg then -(ofDigits ds : Int) else ofDigits ds, t.dropWhile isDigit)

def longMax : Int := 2 ^ 63 - 1
def longMin : Int := -2 ^ 63

/-- What `strtol` leaves: its value, whether `errno` is set, and the string at `endptr`. -/
structure Strtol where
  value : Int
  range : Bool
  endptr : List UInt8

/-- `strtol(s, &endptr, 10)`. -/
def strtol (s : List UInt8) : Strtol :=
  match scanInt s with
  | none => ⟨0, false, s⟩
  | some (n, t) =>
    if longMax < n then ⟨longMax, true, t⟩
    else if n < longMin then ⟨longMin, true, t⟩
    else ⟨n, false, t⟩

/-- The conversion of an integer to `int`. -/
def toInt (n : Int) : Int := n.bmod (2 ^ 32)

/-- `atoi`. -/
def atoi (s : List UInt8) : Int := toInt (strtol s).value

/-! ## `sscanf` -/

/-- The conversions of integers. -/
inductive Conv where
  /-- `%d`. -/
  | d
  /-- `%ld`. -/
  | ld
  /-- `%lu` and `%llu`. -/
  | lu
deriving DecidableEq

/-- The number a conversion stores for the one that was read. -/
def Conv.store : Conv → Int → Int
  | .d, n => toInt (max longMin (min longMax n))
  | .ld, n => max longMin (min longMax n)
  | .lu, n => if n.natAbs < 2 ^ 64 then n % 2 ^ 64 else 2 ^ 64 - 1

/-- The parts of a format. -/
inductive Directive where
  | blank
  | literal (b : UInt8)
  | char
  | skip
  | int (c : Conv)
deriving DecidableEq

/-- A format, part by part. -/
def format : List Char → List Directive
  | '%' :: 'l' :: 'l' :: 'u' :: f => .int .lu :: format f
  | '%' :: 'l' :: 'u' :: f => .int .lu :: format f
  | '%' :: 'l' :: 'd' :: f => .int .ld :: format f
  | '%' :: 'd' :: f => .int .d :: format f
  | '%' :: 'c' :: f => .char :: format f
  | '%' :: '*' :: _ :: f => .skip :: format f
  | ' ' :: f => .blank :: format f
  | c :: f => .literal c.toNat.toUInt8 :: format f
  | [] => []

/-- The values that are assigned before the input stops matching; their number is what
`sscanf` returns. -/
def scan : List Directive → List UInt8 → List Int
  | [], _ => []
  | .blank :: f, s => scan f (s.dropWhile isSpace)
  | .literal b :: f, s =>
    match s with
    | c :: t => if c = b then scan f t else []
    | [] => []
  | .char :: f, s =>
    match s with
    | c :: t => (c.toNat : Int) :: scan f t
    | [] => []
  | .skip :: f, s =>
    match scanInt s with
    | some (_, t) => scan f t
    | none => []
  | .int c :: f, s =>
    match scanInt s with
    | some (n, t) => c.store n :: scan f t
    | none => []

/-- `sscanf`. -/
def sscanf (s : List UInt8) (fmt : String) : List Int := scan (format fmt.toList) s

example : sscanf (bytes "cpu  7 12 -1") "cpu %llu %llu %llu" = [7, 12, 2 ^ 64 - 1] := by decide +kernel

end CString
