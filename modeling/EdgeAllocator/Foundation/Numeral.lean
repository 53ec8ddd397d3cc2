import Mathlib.Data.Nat.Digits.Defs
import Mathlib.Data.List.TakeWhile

/-! Decimal numerals as `strtoul` reads them: blanks and a sign before the digits,
anything after them. -/
namespace EdgeAllocator.Foundation

def isSpace (c : Char) : Bool :=
  c = ' ' || c = '\t' || c = '\n' || c = '\x0b' || c = '\x0c' || c = '\r'

inductive NumeralError where
  | invalidArgument
  | outOfRange
  deriving DecidableEq, Repr

def splitSign : List Char → Bool × List Char
  | '-' :: rest => (true, rest)
  | '+' :: rest => (false, rest)
  | text => (false, text)

def decimal (digits : List Char) : Nat := Nat.ofDigitChars 10 digits 0

def readUnsigned (limit : Nat) (text : List Char) : Except NumeralError Nat :=
  let (negative, rest) := splitSign (text.dropWhile isSpace)
  let digits := rest.takeWhile Char.isDigit
  if digits = [] then .error .invalidArgument
  else if limit ≤ decimal digits then .error .outOfRange
  else .ok (if negative then (limit - decimal digits) % limit else decimal digits)

/-- A plain decimal numeral of a number below `limit`. -/
structure Plain (limit : Nat) (text : List Char) : Prop where
  nonempty : text ≠ []
  digits : ∀ c ∈ text, c.isDigit = true
  inRange : decimal text < limit

theorem not_isSpace_of_isDigit {c : Char} (h : c.isDigit = true) : isSpace c = false := by
  cases hspace : isSpace c with
  | false => rfl
  | true =>
      simp only [isSpace, Bool.or_eq_true, decide_eq_true_eq] at hspace
      obtain ((((rfl | rfl) | rfl) | rfl) | rfl) | rfl := hspace <;> exact absurd h (by decide)

theorem splitSign_of_isDigit {c : Char} {text : List Char} (h : c.isDigit = true) :
    splitSign (c :: text) = (false, c :: text) := by
  have hminus : c ≠ '-' := by
    rintro rfl
    exact absurd h (by decide)
  have hplus : c ≠ '+' := by
    rintro rfl
    exact absurd h (by decide)
  unfold splitSign
  split
  · rename_i heq
    exact absurd (List.cons.inj heq).1 hminus
  · rename_i heq
    exact absurd (List.cons.inj heq).1 hplus
  · rfl

theorem Plain.readUnsigned {limit : Nat} {text : List Char} (h : Plain limit text) :
    readUnsigned limit text = .ok (decimal text) := by
  cases text with
  | nil => exact absurd rfl h.nonempty
  | cons c text =>
      have hdigit : c.isDigit = true := h.digits c List.mem_cons_self
      have hskip : (c :: text).dropWhile isSpace = c :: text :=
        List.dropWhile_cons_of_neg (by simp [not_isSpace_of_isDigit hdigit])
      have hall : (c :: text).takeWhile Char.isDigit = c :: text :=
        List.takeWhile_eq_self_iff.mpr h.digits
      unfold Foundation.readUnsigned
      simp only [hskip, splitSign_of_isDigit hdigit, hall]
      rw [if_neg h.nonempty, if_neg (by have hrange := h.inRange; omega)]
      rfl

theorem Plain.mono {limit limit' : Nat} {text : List Char} (h : Plain limit text)
    (hle : limit ≤ limit') : Plain limit' text :=
  ⟨h.nonempty, h.digits, h.inRange.trans_le hle⟩

end EdgeAllocator.Foundation
