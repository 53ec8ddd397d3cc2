import Mathlib.Data.List.Basic

/-! Percent-encoding of byte strings: the decoder from left to right, and the encoders
that it inverts. -/
namespace EdgeAllocator.Foundation

def percent : UInt8 := 0x25

def hexValue (c : UInt8) : Option Nat :=
  if 48 ≤ c.toNat ∧ c.toNat ≤ 57 then some (c.toNat - 48)
  else if 97 ≤ c.toNat ∧ c.toNat ≤ 102 then some (c.toNat - 97 + 10)
  else if 65 ≤ c.toNat ∧ c.toNat ≤ 70 then some (c.toNat - 65 + 10)
  else none

def escapeValue (high low : UInt8) : Option UInt8 :=
  (hexValue high).bind fun h => (hexValue low).map fun l => UInt8.ofNat (16 * h + l)

def percentDecode : List UInt8 → List UInt8
  | c :: high :: low :: rest =>
      if c = percent then
        match escapeValue high low with
        | some byte => byte :: percentDecode rest
        | none => c :: percentDecode (high :: low :: rest)
      else c :: percentDecode (high :: low :: rest)
  | text => text

/-- The text is the bytes with some of them escaped, each `%` among them. -/
inductive PercentEncodes : List UInt8 → List UInt8 → Prop where
  | nil : PercentEncodes [] []
  | literal {byte : UInt8} {bytes text : List UInt8} (h : byte ≠ percent)
      (later : PercentEncodes bytes text) : PercentEncodes (byte :: bytes) (byte :: text)
  | escaped {byte high low : UInt8} {bytes text : List UInt8}
      (h : escapeValue high low = some byte) (later : PercentEncodes bytes text) :
      PercentEncodes (byte :: bytes) (percent :: high :: low :: text)

theorem percentDecode_short {text : List UInt8} (h : text.length ≤ 2) :
    percentDecode text = text := by
  match text with
  | [] => rfl
  | [_] => rfl
  | [_, _] => rfl
  | _ :: _ :: _ :: _ =>
      simp only [List.length_cons] at h
      omega

theorem percentDecode_literal {c : UInt8} (h : c ≠ percent) (rest : List UInt8) :
    percentDecode (c :: rest) = c :: percentDecode rest := by
  match rest with
  | [] => rfl
  | [_] => rfl
  | _ :: _ :: _ => rw [percentDecode, if_neg h]

theorem percentDecode_escape {high low byte : UInt8} (h : escapeValue high low = some byte)
    (rest : List UInt8) :
    percentDecode (percent :: high :: low :: rest) = byte :: percentDecode rest := by
  rw [percentDecode, if_pos rfl, h]

theorem percentDecode_malformed {high low : UInt8} (h : escapeValue high low = none)
    (rest : List UInt8) :
    percentDecode (percent :: high :: low :: rest) =
      percent :: percentDecode (high :: low :: rest) := by
  rw [percentDecode, if_pos rfl, h]

theorem percentDecode_of_encodes {bytes text : List UInt8} (h : PercentEncodes bytes text) :
    percentDecode text = bytes := by
  induction h with
  | nil => rfl
  | literal h later ih => rw [percentDecode_literal h, ih]
  | escaped h later ih => rw [percentDecode_escape h, ih]

theorem hexValue_lt {c : UInt8} {n : Nat} (h : hexValue c = some n) : n < 16 := by
  unfold hexValue at h
  split_ifs at h <;> cases h <;> omega

end EdgeAllocator.Foundation
