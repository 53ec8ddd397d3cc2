import EdgeAllocator.Foundation.Percent

/-! The path of a request target: what stands before the query, decoded in place. -/
namespace EdgeAllocator.Target

open Foundation

/-- The lambda `hex` of `urlDecode`; -1 stands for no digit. -/
def hex (c : UInt8) : Int :=
  if 48 ≤ c.toNat ∧ c.toNat ≤ 57 then c.toNat - 48
  else if 97 ≤ c.toNat ∧ c.toNat ≤ 102 then c.toNat - 97 + 10
  else if 65 ≤ c.toNat ∧ c.toNat ≤ 70 then c.toNat - 65 + 10
  else -1

def erase (position count : Nat) (value : List UInt8) : List UInt8 :=
  value.take position ++ value.drop (position + count)

def decodeAt (i : Nat) (value : List UInt8) : List UInt8 :=
  if value.getD i 0 = percent then
    let hi := hex (value.getD (i + 1) 0)
    let lo := hex (value.getD (i + 2) 0)
    if 0 ≤ hi ∧ 0 ≤ lo then
      erase (i + 1) 2 (value.set i (UInt8.ofNat (hi.toNat <<< 4 ||| lo.toNat)))
    else value
  else value

theorem decodeAt_length_le (i : Nat) (value : List UInt8) :
    (decodeAt i value).length ≤ value.length := by
  unfold decodeAt erase
  dsimp only
  split_ifs
  · simp only [List.length_append, List.length_take, List.length_drop, List.length_set]
    omega
  · exact Nat.le_refl _
  · exact Nat.le_refl _

/-- The loop from index `i` on. The string gets no longer, so that `i` reaches its end. -/
def urlDecodeFrom (i : Nat) (value : List UInt8) : List UInt8 :=
  if i + 2 < value.length then urlDecodeFrom (i + 1) (decodeAt i value) else value
termination_by value.length - i
decreasing_by
  have hlength := decodeAt_length_le i value
  omega

def urlDecode (value : List UInt8) : List UInt8 := urlDecodeFrom 0 value

def questionMark : UInt8 := 0x3f

def pathOf (target : List UInt8) : List UInt8 :=
  urlDecode (target.takeWhile (· ≠ questionMark))

theorem hex_eq (c : UInt8) : hex c = (hexValue c).elim (-1) fun n => (n : Int) := by
  unfold hex hexValue
  split_ifs <;> simp <;> omega

theorem stored_byte {high low : UInt8} {h l : Nat} (hhigh : hexValue high = some h)
    (hlow : hexValue low = some l) :
    UInt8.ofNat ((hex high).toNat <<< 4 ||| (hex low).toNat) = UInt8.ofNat (16 * h + l) := by
  rw [hex_eq, hex_eq, hhigh, hlow]
  have hlt : l < 2 ^ 4 := hexValue_lt hlow
  have hor := Nat.shiftLeft_add_eq_or_of_lt hlt h
  simp only [Option.elim_some, Int.toNat_natCast]
  rw [← hor, Nat.shiftLeft_eq, Nat.mul_comm]

theorem hex_nonneg_iff {high low : UInt8} :
    0 ≤ hex high ∧ 0 ≤ hex low ↔ (escapeValue high low).isSome = true := by
  rw [hex_eq, hex_eq, escapeValue]
  cases hexValue high <;> cases hexValue low <;> simp

section Body

variable {done rest : List UInt8} {c high low : UInt8}

theorem getD_at (k : Nat) (text : List UInt8) :
    (done ++ text).getD (done.length + k) 0 = text.getD k 0 := by
  rw [List.getD_eq_getElem?_getD, List.getD_eq_getElem?_getD,
    List.getElem?_append_right (Nat.le_add_right _ _), Nat.add_sub_cancel_left]

theorem getD_head : (done ++ c :: rest).getD done.length 0 = c := by
  rw [List.getD_eq_getElem?_getD, List.getElem?_append_right (Nat.le_refl _), Nat.sub_self]
  rfl

theorem erase_append (count : Nat) (text : List UInt8) :
    erase done.length count (done ++ text) = done ++ text.drop count := by
  rw [erase, List.take_left' rfl, List.drop_append, List.drop_eq_nil_of_le (Nat.le_add_right _ _),
    Nat.add_sub_cancel_left, List.nil_append]

theorem decodeAt_literal (h : c ≠ percent) :
    decodeAt done.length (done ++ c :: rest) = done ++ c :: rest := by
  rw [decodeAt, getD_head, if_neg h]

theorem decodeAt_malformed (h : escapeValue high low = none) :
    decodeAt done.length (done ++ percent :: high :: low :: rest) =
      done ++ percent :: high :: low :: rest := by
  have hdigits : ¬ (0 ≤ hex high ∧ 0 ≤ hex low) := by
    rw [hex_nonneg_iff, h]
    decide
  rw [decodeAt, getD_head, getD_at, getD_at]
  exact (if_pos rfl).trans (if_neg hdigits)

theorem decodeAt_escape {byte : UInt8} (h : escapeValue high low = some byte) :
    decodeAt done.length (done ++ percent :: high :: low :: rest) = done ++ byte :: rest := by
  have hdigits : 0 ≤ hex high ∧ 0 ≤ hex low := by
    rw [hex_nonneg_iff, h]
    rfl
  obtain ⟨n, hhigh, hmap⟩ := Option.bind_eq_some_iff.mp h
  obtain ⟨l, hlow, hbyte⟩ := Option.map_eq_some_iff.mp hmap
  have hstored := stored_byte hhigh hlow
  rw [hbyte] at hstored
  rw [decodeAt, getD_head, getD_at, getD_at]
  refine (if_pos rfl).trans ((if_pos hdigits).trans ?_)
  show erase (done.length + 1) 2 ((done ++ percent :: high :: low :: rest).set done.length
    (UInt8.ofNat ((hex high).toNat <<< 4 ||| (hex low).toNat))) = done ++ byte :: rest
  have hset : (done ++ percent :: high :: low :: rest).set done.length byte =
      (done ++ [byte]) ++ high :: low :: rest := by
    rw [List.set_append_right _ _ (Nat.le_refl _), Nat.sub_self, List.set_cons_zero,
      List.append_assoc]
    rfl
  have hlength : done.length + 1 = (done ++ [byte]).length := by
    rw [List.length_append, List.length_singleton]
  rw [hstored, hset, hlength, erase_append, List.append_assoc]
  rfl

end Body

theorem urlDecodeFrom_short {i : Nat} {value : List UInt8} (h : value.length ≤ i + 2) :
    urlDecodeFrom i value = value := by
  rw [urlDecodeFrom, if_neg (Nat.not_lt.mpr h)]

theorem urlDecodeFrom_next {done rest value : List UInt8} {byte : UInt8}
    (hlt : done.length + 2 < value.length) (h : decodeAt done.length value = done ++ byte :: rest) :
    urlDecodeFrom done.length value =
      urlDecodeFrom (done ++ [byte]).length ((done ++ [byte]) ++ rest) := by
  rw [urlDecodeFrom, if_pos hlt, h, List.length_append, List.length_singleton, List.append_assoc]
  rfl

/-- What the loop has passed it leaves alone; what is ahead it decodes. The induction is
on the length of what is ahead, which every pass shortens. -/
theorem urlDecodeFrom_eq (done rest : List UInt8) :
    urlDecodeFrom done.length (done ++ rest) = done ++ percentDecode rest := by
  induction hlength : rest.length using Nat.strongRecOn generalizing done rest with
  | _ n ih =>
    subst hlength
    match rest with
    | [] | [_] | [_, _] =>
        rw [percentDecode_short (by simp)]
        exact urlDecodeFrom_short (by simp)
    | c :: high :: low :: rest =>
        have hlt : done.length + 2 < (done ++ c :: high :: low :: rest).length := by
          simp only [List.length_append, List.length_cons]
          omega
        have hcopy (hsame : decodeAt done.length (done ++ c :: high :: low :: rest) =
            done ++ c :: high :: low :: rest) :
            urlDecodeFrom done.length (done ++ c :: high :: low :: rest) =
              done ++ c :: percentDecode (high :: low :: rest) := by
          rw [urlDecodeFrom_next hlt hsame, ih _ (by simp) _ _ rfl, List.append_assoc]
          rfl
        by_cases hc : c = percent
        · subst hc
          cases hescape : escapeValue high low with
          | none =>
              rw [hcopy (decodeAt_malformed hescape), percentDecode_malformed hescape]
          | some byte =>
              rw [urlDecodeFrom_next hlt (decodeAt_escape hescape), ih _ (by simp; omega) _ _ rfl,
                percentDecode_escape hescape, List.append_assoc]
              rfl
        · rw [hcopy (decodeAt_literal hc), percentDecode_literal hc]

/-- The query is cut off before the path is decoded, so that an escaped `?` belongs to the
path. -/
theorem pathOf_eq (target : List UInt8) :
    pathOf target = percentDecode (target.takeWhile (· ≠ questionMark)) :=
  urlDecodeFrom_eq [] _

/-- The loop in place is the decoder from left to right, and it inverts every encoder
that escapes at least each `%`. -/
theorem urlDecode_eq (value : List UInt8) :
    urlDecode value = percentDecode value ∧
      ∀ bytes, PercentEncodes bytes value → urlDecode value = bytes := by
  have heq : urlDecode value = percentDecode value := urlDecodeFrom_eq [] value
  refine ⟨heq, fun bytes hencodes => ?_⟩
  rw [heq, percentDecode_of_encodes hencodes]

theorem urlDecode_eq_slash :
    urlDecode [0x61, 0x25, 0x32, 0x66] = percentDecode [0x61, 0x25, 0x32, 0x66] ∧
      urlDecode [0x61, 0x25, 0x32, 0x66] = [0x61, 0x2f] :=
  ⟨(urlDecode_eq [0x61, 0x25, 0x32, 0x66]).1, (urlDecode_eq [0x61, 0x25, 0x32, 0x66]).2 _
    (.literal (by decide) (.escaped (by decide) .nil))⟩

end EdgeAllocator.Target
