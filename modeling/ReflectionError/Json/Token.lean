import ReflectionError.Except
import ReflectionError.Json.Error

/-!
# ReflectionError.Json.Token

The parts of JSON that do not contain values: blanks, words, numbers and strings. Each reader takes
the text behind what has been read and gives what it found with the text behind that, which is
shorter. Text whose value nobody asks for is skipped, and then less is looked at: numbers are not
converted and the code points of escapes not checked.
-/

namespace ReflectionError
namespace Json

inductive Mode where
  | keep
  | skip
  deriving DecidableEq

abbrev Reading (α : Type) := Except Fault (α × List Char)

def isBlank (c : Char) : Bool := c = ' ' || c = '\t' || c = '\n' || c = '\r'

def skipBlank (s : List Char) : List Char := s.dropWhile isBlank

def isDigit (c : Char) : Bool := '0' ≤ c && c ≤ '9'

def readWord : List Char → List Char → Except Fault (List Char)
  | [], s => .ok s
  | _ :: _, [] => .error (.here .endInValue [])
  | letter :: letters, c :: rest =>
    if c = letter then readWord letters rest
    else .error { cause := .flaw .expectedWord, rest := c :: rest, ahead := 1 }

/-! ## Numbers -/

/-- A number as it is written: its digits before the point, behind it, and those of the exponent. -/
structure Numeral where
  negative : Bool
  whole : List Char
  fraction : List Char
  hasExponent : Bool
  exponentNegative : Bool
  exponent : List Char
  deriving DecidableEq

/-- The digits in front of a point or an exponent. A zero in front of other digits is refused. -/
def readWhole (mode : Mode) : List Char → Reading (List Char)
  | [] => .error (.here (if mode = .keep then .endInValue else .invalidNumber) [])
  | c :: rest =>
    if c = '0' then
      match rest with
      | d :: _ => if isDigit d then .error (.peeked .invalidNumber rest) else .ok (['0'], rest)
      | [] => .ok (['0'], rest)
    else if isDigit c then .ok (c :: rest.takeWhile isDigit, rest.dropWhile isDigit)
    else .error { cause := .flaw .invalidNumber, rest := c :: rest, ahead := 1 }

def readFraction (mode : Mode) : List Char → Reading (List Char)
  | '.' :: rest =>
    match rest.takeWhile isDigit with
    | [] =>
      .error (.peeked (if mode = .keep && rest = [] then .endInValue else .invalidNumber) rest)
    | d :: ds => .ok (d :: ds, rest.dropWhile isDigit)
  | s => .ok ([], s)

def readExponentDigits (mode : Mode) (s : List Char) : Reading (Bool × List Char) :=
  let digits := match s with
    | '+' :: rest => rest
    | '-' :: rest => rest
    | s => s
  match digits with
  | [] => .error (.here (if mode = .keep then .endInValue else .invalidNumber) [])
  | c :: rest =>
    if isDigit c then
      .ok ((s.head? = some '-', c :: rest.takeWhile isDigit), rest.dropWhile isDigit)
    else .error { cause := .flaw .invalidNumber, rest := c :: rest, ahead := 1 }

def readExponent (mode : Mode) : List Char → Reading (Option (Bool × List Char))
  | c :: rest =>
    if c = 'e' || c = 'E' then
      (readExponentDigits mode rest).map fun (e, behind) => (some e, behind)
    else .ok (none, c :: rest)
  | [] => .ok (none, [])

def readUnsigned (mode : Mode) (negative : Bool) (s : List Char) : Reading Numeral :=
  match readWhole mode s with
  | .error f => .error f
  | .ok (whole, s) =>
    match readFraction mode s with
    | .error f => .error f
    | .ok (fraction, s) =>
      match readExponent mode s with
      | .error f => .error f
      | .ok (none, s) => .ok (⟨negative, whole, fraction, false, false, []⟩, s)
      | .ok (some (sign, digits), s) => .ok (⟨negative, whole, fraction, true, sign, digits⟩, s)

def readNumeral (mode : Mode) : List Char → Reading Numeral
  | '-' :: rest => readUnsigned mode true rest
  | s => readUnsigned mode false s

/-- Appends digits to a number as long as it stays within `limit`: the number, and how many digits
were left over. -/
def appendDigits (limit value : Nat) : List Char → Nat × Nat
  | [] => (value, 0)
  | c :: rest =>
    if limit < value * 10 + (c.toNat - 0x30) then (value, rest.length + 1)
    else appendDigits limit (value * 10 + (c.toNat - 0x30)) rest

def powerOfTen (n : Nat) : Float := Float.ofScientific 1 false n

/-- `x * 10 ^ exponent`, in steps of at most `10 ^ 308`; `none` if it is too large. -/
def scale (x : Float) (exponent : Int) : Option Float :=
  if exponent.natAbs ≤ 308 then
    if 0 ≤ exponent then
      let y := x * powerOfTen exponent.natAbs
      if y.isInf then none else some y
    else some (x / powerOfTen exponent.natAbs)
  else if x == 0 then some x
  else if 0 ≤ exponent then none
  else scale (x / powerOfTen 308) (exponent + 308)
termination_by exponent.natAbs
decreasing_by omega

def floatOfParts (negative : Bool) (significand : Nat) (exponent : Int) : Option Number :=
  (scale (UInt64.ofNat significand).toFloat exponent).map fun x =>
    .float (if negative then -x else x)

/-- Exponents of more than this count as too large to be written down. -/
def maxExponent : Nat := 0x7fffffff

/-- The number that a numeral stands for, or how many digits of the exponent were not looked at when
it turned out too large. Digits that do not fit 64 bits only count for the size. -/
def Numeral.value (n : Numeral) : Except Nat Number :=
  let (whole, left) := appendDigits (UInt64.size - 1) 0 n.whole
  if n.fraction = [] && !n.hasExponent && left = 0 then
    if !n.negative then .ok (.integer whole)
    else if 0 < whole && whole ≤ UInt64.size / 2 then .ok (.integer (-whole))
    else .ok (.float (-(UInt64.ofNat whole).toFloat))
  else
    let (significand, unused) := appendDigits (UInt64.size - 1) whole n.fraction
    let places : Int := left - (n.fraction.length - unused : Nat)
    let (exponent, unread) := appendDigits maxExponent 0 n.exponent
    if 0 < unread then
      if significand ≠ 0 && !n.exponentNegative then .error (unread - 1)
      else .ok (.float (if n.negative then -0.0 else 0.0))
    else
      match floatOfParts n.negative significand
          (if n.exponentNegative then places - exponent else places + exponent) with
      | some x => .ok x
      | none => .error 0

def readNumber (mode : Mode) (s : List Char) : Reading Number :=
  match readNumeral mode s with
  | .error f => .error f
  | .ok (numeral, rest) =>
    match mode with
    | .skip => .ok (.integer 0, rest)
    | .keep =>
      match numeral.value with
      | .ok n => .ok (n, rest)
      | .error unread =>
        .error (.here .numberOutOfRange
          (numeral.exponent.drop (numeral.exponent.length - unread) ++ rest))

/-! ## Strings -/

def hexValue? (c : Char) : Option Nat :=
  if '0' ≤ c && c ≤ '9' then some (c.toNat - 0x30)
  else if 'a' ≤ c && c ≤ 'f' then some (c.toNat - 0x57)
  else if 'A' ≤ c && c ≤ 'F' then some (c.toNat - 0x37)
  else none

/-- Four hexadecimal digits. Four bytes are taken before they are looked at. -/
def readHex4 (s : List Char) : Reading Nat :=
  if byteLength s < 4 then .error (.here .endInString [])
  else match (s.take 4).mapM hexValue? with
    | some [a, b, c, d] => .ok (((a * 16 + b) * 16 + c) * 16 + d, s.drop 4)
    | _ => .error { cause := .flaw .invalidEscape, rest := s, ahead := 4 }

def isLeading (n : Nat) : Bool := 0xD800 ≤ n && n < 0xDC00

def isTrailing (n : Nat) : Bool := 0xDC00 ≤ n && n < 0xE000

/-- The second half of a character beyond U+FFFF, whose first half `high` has been read. -/
def readSecondHalf (high : Nat) : List Char → Reading Char
  | [] => .error (.here .endInString [])
  | '\\' :: [] => .error (.here .endInString [])
  | '\\' :: 'u' :: rest =>
    match readHex4 rest with
    | .error f => .error f
    | .ok (low, behind) =>
      if isTrailing low then
        .ok (Char.ofNat (0x10000 + (high - 0xD800) * 0x400 + (low - 0xDC00)), behind)
      else .error (.here .loneSurrogate behind)
  | '\\' :: rest => .error (.peeked .missingSurrogate rest)
  | s => .error (.peeked .missingSurrogate s)

/-- The character that four digits behind `\u` stand for. -/
def readCodePoint (mode : Mode) (s : List Char) : Reading Char :=
  match readHex4 s with
  | .error f => .error f
  | .ok (n, rest) =>
    if mode = .skip then .ok (Char.ofNat n, rest)
    else if isTrailing n then .error (.here .loneSurrogate rest)
    else if isLeading n then readSecondHalf n rest
    else .ok (Char.ofNat n, rest)

def escapedChar? : Char → Option Char
  | '"' => some '"'
  | '\\' => some '\\'
  | '/' => some '/'
  | 'b' => some '\x08'
  | 'f' => some '\x0c'
  | 'n' => some '\n'
  | 'r' => some '\r'
  | 't' => some '\t'
  | _ => none

def readEscape (mode : Mode) : List Char → Reading Char
  | [] => .error (.here .endInString [])
  | c :: rest =>
    if c = 'u' then readCodePoint mode rest
    else match escapedChar? c with
      | some d => .ok (d, rest)
      | none => .error { cause := .flaw .invalidEscape, rest := c :: rest, ahead := 1 }

theorem length_le_of_readHex4 {s rest : List Char} {n : Nat} (h : readHex4 s = .ok (n, rest)) :
    rest.length ≤ s.length := by
  unfold readHex4 at h
  split at h
  · simp at h
  · split at h
    · simp only [Except.ok.injEq, Prod.mk.injEq] at h
      rw [← h.2, List.length_drop]
      omega
    · simp at h

theorem length_le_of_readSecondHalf {high : Nat} {s rest : List Char} {c : Char}
    (h : readSecondHalf high s = .ok (c, rest)) : rest.length ≤ s.length := by
  unfold readSecondHalf at h
  split at h
  · simp at h
  · simp at h
  · split at h
    · simp at h
    · next hx =>
      split at h
      · simp only [Except.ok.injEq, Prod.mk.injEq] at h
        have := length_le_of_readHex4 hx
        simp only [List.length_cons]
        rw [← h.2]
        omega
      · simp at h
  · simp at h
  · simp at h

theorem length_le_of_readCodePoint {mode : Mode} {s rest : List Char} {c : Char}
    (h : readCodePoint mode s = .ok (c, rest)) : rest.length ≤ s.length := by
  unfold readCodePoint at h
  split at h
  · simp at h
  · next hx =>
    have := length_le_of_readHex4 hx
    split at h
    · simp only [Except.ok.injEq, Prod.mk.injEq] at h
      exact h.2 ▸ this
    · split at h
      · simp at h
      · split at h
        · exact Nat.le_trans (length_le_of_readSecondHalf h) this
        · simp only [Except.ok.injEq, Prod.mk.injEq] at h
          exact h.2 ▸ this

theorem length_lt_of_readEscape {mode : Mode} {s rest : List Char} {c : Char}
    (h : readEscape mode s = .ok (c, rest)) : rest.length < s.length := by
  unfold readEscape at h
  split at h
  · simp at h
  · split at h
    · exact Nat.lt_succ_of_le (length_le_of_readCodePoint h)
    · split at h
      · simp only [Except.ok.injEq, Prod.mk.injEq] at h
        rw [← h.2]
        simp
      · simp at h

def readString (mode : Mode) (s : List Char) : Reading (List Char) :=
  match s with
  | [] => .error (.here .endInString [])
  | c :: rest =>
    if c = '"' then .ok ([], rest)
    else if c = '\\' then
      match _h : readEscape mode rest with
      | .error f => .error f
      | .ok (d, behind) => (readString mode behind).map fun (ds, next) => (d :: ds, next)
    else if c.toNat < 0x20 then
      .error (.here .controlCharacter (if mode = .keep then rest else c :: rest))
    else (readString mode rest).map fun (ds, next) => (c :: ds, next)
termination_by s.length
decreasing_by
  · have := length_lt_of_readEscape _h
    simp only [List.length_cons]
    omega
  · simp

/-! ## Readers go forward -/

theorem length_skipBlank_le (s : List Char) : (skipBlank s).length ≤ s.length :=
  (List.dropWhile_sublist _).length_le

theorem length_lt_of_skipBlank {s rest : List Char} {c : Char} (h : skipBlank s = c :: rest) :
    rest.length < s.length := by
  have := length_skipBlank_le s
  rw [h, List.length_cons] at this
  omega

theorem length_le_of_readWord {letters s rest : List Char} (h : readWord letters s = .ok rest) :
    rest.length ≤ s.length := by
  induction letters generalizing s with
  | nil => simp only [readWord, Except.ok.injEq] at h; exact h ▸ Nat.le_refl _
  | cons l ls ih =>
    cases s with
    | nil => simp [readWord] at h
    | cons c cs =>
      simp only [readWord] at h
      split at h
      · exact Nat.le_succ_of_le (ih h)
      · simp at h

theorem length_dropWhile_le (p : Char → Bool) (s : List Char) :
    (s.dropWhile p).length ≤ s.length :=
  (List.dropWhile_sublist _).length_le

theorem length_lt_of_readWhole {mode : Mode} {s rest digits : List Char}
    (h : readWhole mode s = .ok (digits, rest)) : rest.length < s.length := by
  unfold readWhole at h
  split at h
  · simp at h
  · split at h
    · split at h
      · split at h
        · simp at h
        · simp only [Except.ok.injEq, Prod.mk.injEq] at h
          rw [← h.2]
          simp
      · simp only [Except.ok.injEq, Prod.mk.injEq] at h
        rw [← h.2]
        simp
    · split at h
      · simp only [Except.ok.injEq, Prod.mk.injEq] at h
        rw [← h.2]
        exact Nat.lt_succ_of_le (length_dropWhile_le _ _)
      · simp at h

theorem length_le_of_readFraction {mode : Mode} {s rest digits : List Char}
    (h : readFraction mode s = .ok (digits, rest)) : rest.length ≤ s.length := by
  unfold readFraction at h
  split at h
  · split at h
    · simp at h
    · simp only [Except.ok.injEq, Prod.mk.injEq] at h
      rw [← h.2]
      exact Nat.le_succ_of_le (length_dropWhile_le _ _)
  · simp only [Except.ok.injEq, Prod.mk.injEq] at h
    exact h.2 ▸ Nat.le_refl _

theorem length_le_of_readExponentDigits {mode : Mode} {s rest : List Char} {e : Bool × List Char}
    (h : readExponentDigits mode s = .ok (e, rest)) : rest.length ≤ s.length := by
  unfold readExponentDigits at h
  have key : ∀ {digits : List Char}, digits.length ≤ s.length →
      (match digits with
        | [] => .error (.here (if mode = .keep then .endInValue else .invalidNumber) [])
        | c :: rest =>
          if isDigit c then
            .ok ((s.head? = some '-', c :: rest.takeWhile isDigit), rest.dropWhile isDigit)
          else .error { cause := .flaw .invalidNumber, rest := c :: rest, ahead := 1 } :
        Reading (Bool × List Char)) = .ok (e, rest) → rest.length ≤ s.length := by
    intro digits hl hd
    split at hd
    · simp at hd
    · split at hd
      · simp only [Except.ok.injEq, Prod.mk.injEq] at hd
        rw [← hd.2]
        have := length_dropWhile_le isDigit ‹List Char›
        simp only [List.length_cons] at hl
        omega
      · simp at hd
  split at h
  · exact key (by simp) h
  · exact key (by simp) h
  · exact key (Nat.le_refl _) h

theorem length_le_of_readExponent {mode : Mode} {s rest : List Char}
    {e : Option (Bool × List Char)} (h : readExponent mode s = .ok (e, rest)) :
    rest.length ≤ s.length := by
  unfold readExponent at h
  split at h
  · split at h
    · next tail _ =>
      obtain ⟨⟨digits, behind⟩, hx, he⟩ := Except.map_eq_ok_iff.1 h
      cases he
      exact Nat.le_succ_of_le (length_le_of_readExponentDigits hx)
    · simp only [Except.ok.injEq, Prod.mk.injEq] at h
      exact h.2 ▸ Nat.le_refl _
  · simp only [Except.ok.injEq, Prod.mk.injEq] at h
    exact h.2 ▸ Nat.le_refl _

theorem length_lt_of_readUnsigned {mode : Mode} {negative : Bool} {s rest : List Char}
    {n : Numeral} (h : readUnsigned mode negative s = .ok (n, rest)) :
    rest.length < s.length := by
  unfold readUnsigned at h
  split at h
  · simp at h
  · next hw =>
    split at h
    · simp at h
    · next hf =>
      have h1 := length_lt_of_readWhole hw
      have h2 := length_le_of_readFraction hf
      split at h
      · simp at h
      · next he =>
        simp only [Except.ok.injEq, Prod.mk.injEq] at h
        have := length_le_of_readExponent he
        rw [← h.2]
        omega
      · next he =>
        simp only [Except.ok.injEq, Prod.mk.injEq] at h
        have := length_le_of_readExponent he
        rw [← h.2]
        omega

theorem length_lt_of_readNumber {mode : Mode} {s rest : List Char} {n : Number}
    (h : readNumber mode s = .ok (n, rest)) : rest.length < s.length := by
  have numeral {m : Numeral} {r : List Char} (hn : readNumeral mode s = .ok (m, r)) :
      r.length < s.length := by
    unfold readNumeral at hn
    split at hn
    · exact Nat.lt_succ_of_lt (length_lt_of_readUnsigned hn)
    · exact length_lt_of_readUnsigned hn
  unfold readNumber at h
  split at h
  · simp at h
  · next hn =>
    split at h
    · simp only [Except.ok.injEq, Prod.mk.injEq] at h
      exact h.2 ▸ numeral hn
    · split at h
      · simp only [Except.ok.injEq, Prod.mk.injEq] at h
        exact h.2 ▸ numeral hn
      · simp at h

theorem length_lt_of_readString {mode : Mode} {s rest cs : List Char}
    (h : readString mode s = .ok (cs, rest)) : rest.length < s.length := by
  fun_induction readString mode s generalizing cs with
  | case1 => simp at h
  | case2 =>
    simp only [Except.ok.injEq, Prod.mk.injEq] at h
    rw [← h.2]
    simp
  | case3 => simp at h
  | case4 r d behind he _ ih =>
    obtain ⟨⟨ds, next⟩, hr, hn⟩ := Except.map_eq_ok_iff.1 h
    cases hn
    have h1 := ih hr
    have h2 := length_lt_of_readEscape he
    simp only [List.length_cons]
    omega
  | case5 => simp at h
  | case6 c r _ _ _ ih =>
    obtain ⟨⟨ds, next⟩, hr, hn⟩ := Except.map_eq_ok_iff.1 h
    cases hn
    exact Nat.lt_succ_of_lt (ih hr)

end Json
end ReflectionError
