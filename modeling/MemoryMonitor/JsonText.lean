import MemoryMonitor.CString

/-! # JSON texts

The grammar of JSON as trees that keep every byte: blanks, the spelling of each
character of a string, the digits of a number.  A tree cannot be ill-formed, and `text`
writes it out, so a text is a valid JSON text when it is the `text` of a tree.

Strings are taken byte by byte; that the bytes from 128 on form characters in UTF-8 is
not asked for.
-/
namespace JsonText

open CString

/-! ## Tokens -/

inductive Blank where
  | space
  | tab
  | cr
  | lf
deriving DecidableEq

def Blank.byte : Blank → UInt8
  | .space => 32
  | .tab => 9
  | .cr => 13
  | .lf => 10

/-- The bytes of a run of blanks. -/
def blanks (w : List Blank) : List UInt8 := w.map Blank.byte

/-- The escapes of one letter. -/
inductive Escape where
  | quote
  | backslash
  | slash
  | b
  | f
  | n
  | r
  | t
deriving DecidableEq

/-- The byte after the backslash. -/
def Escape.letter : Escape → UInt8
  | .quote => 34
  | .backslash => 92
  | .slash => 47
  | .b => 98
  | .f => 102
  | .n => 110
  | .r => 114
  | .t => 116

/-- The byte that is meant. -/
def Escape.value : Escape → UInt8
  | .quote => 34
  | .backslash => 92
  | .slash => 47
  | .b => 8
  | .f => 12
  | .n => 10
  | .r => 13
  | .t => 9

def isHex (b : UInt8) : Bool := isDigit b || (65 ≤ b && b ≤ 70) || (97 ≤ b && b ≤ 102)

/-- A hexadecimal digit. -/
structure Hex where
  byte : UInt8
  valid : isHex byte = true

def Hex.value (h : Hex) : Nat :=
  if h.byte ≤ 57 then h.byte.toNat - 48
  else if h.byte ≤ 70 then h.byte.toNat - 55
  else h.byte.toNat - 87

/-- A character of a string, as it is spelled. -/
inductive StrChar where
  | plain (b : UInt8) (valid : 32 ≤ b ∧ b ≠ 34 ∧ b ≠ 92)
  | escape (e : Escape)
  | unicode (h₁ h₂ h₃ h₄ : Hex)

def StrChar.text : StrChar → List UInt8
  | .plain b _ => [b]
  | .escape e => [92, e.letter]
  | .unicode h₁ h₂ h₃ h₄ => [92, 117, h₁.byte, h₂.byte, h₃.byte, h₄.byte]

/-- The character that is meant, if it is an ASCII character. -/
def StrChar.ascii? : StrChar → Option UInt8
  | .plain b _ => if b < 128 then some b else none
  | .escape e => some e.value
  | .unicode h₁ h₂ h₃ h₄ =>
    let code := 16 * (16 * (16 * h₁.value + h₂.value) + h₃.value) + h₄.value
    if code < 128 then some code.toUInt8 else none

/-- The text between the quotes. -/
def inner (cs : List StrChar) : List UInt8 := cs.flatMap StrChar.text

/-- The content of a string, if it is an ASCII string. -/
def ascii? (cs : List StrChar) : Option (List UInt8) := cs.mapM StrChar.ascii?

/-- A string token. -/
def quoted (cs : List StrChar) : List UInt8 := 34 :: inner cs ++ [34]

/-- The digits are the numerals of `Fin 10`. -/
instance tenNeZero : NeZero 10 := ⟨by decide⟩

def digitByte (d : Fin 10) : UInt8 := (48 + d.val).toUInt8

def digits (ds : List (Fin 10)) : List UInt8 := ds.map digitByte

/-- The integer part of a number: `0`, or digits that do not begin with `0`. -/
inductive Whole where
  | zero
  | pos (d : Fin 10) (nonzero : d ≠ 0) (ds : List (Fin 10))

def Whole.text : Whole → List UInt8
  | .zero => [48]
  | .pos d _ ds => digits (d :: ds)

/-- The exponent of a number. -/
structure Exponent where
  upper : Bool
  sign : Option Bool
  d : Fin 10
  ds : List (Fin 10)

def signText : Option Bool → List UInt8
  | none => []
  | some true => [45]
  | some false => [43]

def Exponent.text (e : Exponent) : List UInt8 :=
  (if e.upper then 69 else 101) :: (signText e.sign ++ digits (e.d :: e.ds))

structure Number where
  neg : Bool
  whole : Whole
  frac : Option (Fin 10 × List (Fin 10))
  exp : Option Exponent

/-- What follows the integer part. -/
def Number.rest (n : Number) : List UInt8 :=
  (n.frac.elim [] fun f => 46 :: digits (f.1 :: f.2)) ++ n.exp.elim [] Exponent.text

def Number.text (n : Number) : List UInt8 :=
  (if n.neg then [45] else []) ++ (n.whole.text ++ n.rest)

inductive Literal where
  | true
  | false
  | null
deriving DecidableEq

def Literal.text : Literal → List UInt8
  | .true => bytes "true"
  | .false => bytes "false"
  | .null => bytes "null"

/-! ## Reading a string byte by byte -/

/-- The byte a spelled character means; from 128 on a byte stands for itself. -/
def StrChar.byte? : StrChar → Option UInt8
  | .plain b _ => some b
  | c => c.ascii?

/-- The value of a hexadecimal digit. -/
def hexValue? (b : UInt8) : Option Nat :=
  if h : isHex b = true then some (Hex.value ⟨b, h⟩) else none

/-- The byte that a letter after a backslash means. -/
def escapeValue? (b : UInt8) : Option UInt8 :=
  if b = 34 then some 34
  else if b = 92 then some 92
  else if b = 47 then some 47
  else if b = 98 then some 8
  else if b = 102 then some 12
  else if b = 110 then some 10
  else if b = 114 then some 13
  else if b = 116 then some 9
  else none

/-- The bytes that the text between the quotes of a string means.  There are none when it
holds a quote or a control byte as it is, an escape that is not one or is cut off, or a
character that is not a byte. -/
def unescape : List UInt8 → Option (List UInt8)
  | [] => some []
  | c :: s =>
    if c = 92 then
      match s with
      | [] => none
      | e :: t =>
        if e = 117 then
          match t with
          | a :: b :: c :: d :: u => do
            let h₁ ← hexValue? a
            let h₂ ← hexValue? b
            let h₃ ← hexValue? c
            let h₄ ← hexValue? d
            let code := 16 * (16 * (16 * h₁ + h₂) + h₃) + h₄
            if code < 128 then (unescape u).map (code.toUInt8 :: ·) else none
          | _ => none
        else (escapeValue? e).bind fun v => (unescape t).map (v :: ·)
    else if c = 34 || c < 32 then none
    else (unescape s).map (c :: ·)

theorem escapeValue?_letter (e : Escape) : escapeValue? e.letter = some e.value := by
  cases e <;> rfl

theorem hexValue?_byte (h : Hex) : hexValue? h.byte = some h.value := by
  unfold hexValue?
  rw [dif_pos h.valid]

/-- One character more. -/
theorem unescape_text (c : StrChar) (s : List UInt8) :
    unescape (c.text ++ s) = c.byte?.bind fun b => (unescape s).map (b :: ·) := by
  cases c with
  | plain b hb =>
    have hlt : (b = 34 || b < 32) = false := by
      simp [hb.2.1, hb.1]
    show unescape (b :: s) = _
    rw [unescape.eq_def]
    simp only
    rw [if_neg hb.2.2, hlt]
    rfl
  | escape e =>
    have hne : e.letter ≠ 117 := by
      cases e <;> decide
    show unescape (92 :: e.letter :: s) = _
    rw [unescape.eq_def]
    simp only [if_true]
    rw [if_neg hne, escapeValue?_letter]
    rfl
  | unicode h₁ h₂ h₃ h₄ =>
    show unescape (92 :: 117 :: h₁.byte :: h₂.byte :: h₃.byte :: h₄.byte :: s) = _
    rw [unescape.eq_def]
    simp only [if_true, hexValue?_byte]
    simp only [StrChar.byte?, StrChar.ascii?, Option.bind_eq_bind, Option.bind_some]
    split
    · rfl
    · rfl

/-- **The reading of a well-formed content** is that of its characters, one by one. -/
theorem unescape_inner (cs : List StrChar) : unescape (inner cs) = cs.mapM StrChar.byte? := by
  induction cs with
  | nil => rfl
  | cons c cs ih =>
    show unescape (c.text ++ inner cs) = _
    rw [unescape_text, ih, List.mapM_cons]
    cases c.byte? with
    | none => rfl
    | some b =>
      cases cs.mapM StrChar.byte? with
      | none => rfl
      | some bs => rfl

/-! ## Values -/

/-- The nonterminals of the grammar. -/
inductive Kind where
  | value
  | elements
  | members
deriving DecidableEq

/-- The trees of the grammar. -/
inductive Syn : Kind → Type where
  | string (cs : List StrChar) : Syn .value
  | number (n : Number) : Syn .value
  | literal (l : Literal) : Syn .value
  | emptyArray (w : List Blank) : Syn .value
  | array (es : Syn .elements) : Syn .value
  | emptyObject (w : List Blank) : Syn .value
  | object (ms : Syn .members) : Syn .value
  | element (w : List Blank) (v : Syn .value) (w' : List Blank) : Syn .elements
  | elements (w : List Blank) (v : Syn .value) (w' : List Blank) (es : Syn .elements) :
      Syn .elements
  | member (w : List Blank) (key : List StrChar) (w₁ w₂ : List Blank) (v : Syn .value)
      (w' : List Blank) : Syn .members
  | members (w : List Blank) (key : List StrChar) (w₁ w₂ : List Blank) (v : Syn .value)
      (w' : List Blank) (ms : Syn .members) : Syn .members

namespace Syn

def text {k : Kind} : Syn k → List UInt8
  | .string cs => quoted cs
  | .number n => n.text
  | .literal l => l.text
  | .emptyArray w => 91 :: blanks w ++ [93]
  | .array es => 91 :: es.text ++ [93]
  | .emptyObject w => 123 :: blanks w ++ [125]
  | .object ms => 123 :: ms.text ++ [125]
  | .element w v w' => blanks w ++ v.text ++ blanks w'
  | .elements w v w' es => blanks w ++ v.text ++ blanks w' ++ (44 :: es.text)
  | .member w key w₁ w₂ v w' =>
    blanks w ++ quoted key ++ (blanks w₁ ++ 58 :: blanks w₂) ++ v.text ++ blanks w'
  | .members w key w₁ w₂ v w' ms =>
    blanks w ++ quoted key ++ (blanks w₁ ++ 58 :: blanks w₂) ++ v.text ++ blanks w' ++
      (44 :: ms.text)

/-- The text of a number or the content of a string; other values have none. -/
def content? : Syn .value → Option (List UInt8)
  | .string cs => ascii? cs
  | .number n => some n.text
  | _ => none

/-- The value is an object. -/
def IsObject : Syn .value → Prop
  | .object _ => True
  | .emptyObject _ => True
  | _ => False

end Syn

/-- A member of an object, and how many objects it is in. -/
structure Member where
  depth : Nat
  key : List StrChar
  value : Syn .value

/-- The key as it is spelled. -/
def Member.keyText (m : Member) : List UInt8 := inner m.key

/-- The members of all objects of a tree inside `d` others, in the order of the text. -/
def Syn.allMembers {k : Kind} (d : Nat) : Syn k → List Member
  | .string _ => []
  | .number _ => []
  | .literal _ => []
  | .emptyArray _ => []
  | .array es => es.allMembers d
  | .emptyObject _ => []
  | .object ms => ms.allMembers (d + 1)
  | .element _ v _ => v.allMembers d
  | .elements _ v _ es => v.allMembers d ++ es.allMembers d
  | .member _ key _ _ v _ => ⟨d, key, v⟩ :: v.allMembers d
  | .members _ key _ _ v _ ms => ⟨d, key, v⟩ :: v.allMembers d ++ ms.allMembers d

/-- A JSON text that is an object. -/
structure ObjectText where
  before : List Blank
  object : Syn .value
  isObject : object.IsObject
  after : List Blank

namespace ObjectText

def text (doc : ObjectText) : List UInt8 := blanks doc.before ++ doc.object.text ++ blanks doc.after

/-- Its members and theirs; the object's own are at depth 1. -/
def members (doc : ObjectText) : List Member := doc.object.allMembers 0

end ObjectText

end JsonText
