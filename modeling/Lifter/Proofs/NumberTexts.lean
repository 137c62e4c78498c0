/-
  Lifter.Proofs.NumberTexts — what a text of digits is read as.

  Digits are worth what they are worth together, however many there are
  (`valueFrom?`). A reader that stops at the first digit that is too much reads them as
  that number if a word can hold it, and not at all otherwise (`readDigits_of_value`): the
  value never falls again. With a mark before them they are read in base sixteen
  (`Digits.readNumber_hexadecimal`). No digit is blank, and blanks at the ends of a text
  are trimmed one by one.
-/

import Lifter.Proofs.Numerals
import Lifter.Text.Blank

namespace Lifter.Text

/-! ## Digits -/

/-- The number that the characters spell as digits of either case, behind digits worth `n`. -/
def valueFrom? (radix : Nat) : List Char → Nat → Option Nat
  | [], n => some n
  | c :: cs, n =>
    match digit? radix c with
    | none => none
    | some d => valueFrom? radix cs (radix * n + d)

/-- There are digits, and they are worth `n`. -/
def Digits (radix : Nat) (cs : List Char) (n : Nat) : Prop := cs ≠ [] ∧ valueFrom? radix cs 0 = some n

instance (radix : Nat) (cs : List Char) (n : Nat) : Decidable (Digits radix cs n) := by
  unfold Digits
  infer_instance

variable {radix : Nat} {c : Char} {cs : List Char} {d n : Nat}

theorem digit?_lt (h : digit? radix c = some d) : d < radix := by
  unfold digit? at h
  simp only [Option.ite_none_right_eq_some, Option.some.injEq] at h
  exact h.2 ▸ h.1

/-- Digits are decimal digits and letters up to `f`. -/
theorem digit?_value (h : digit? radix c = some d) :
    (c.toNat = 48 + d ∧ d < 10) ∨ (c.toNat = 87 + d ∧ 10 ≤ d ∧ d < 16) ∨ (c.toNat = 55 + d ∧ 10 ≤ d ∧ d < 16) := by
  unfold digit? at h
  simp only [Option.ite_none_right_eq_some, Option.some.injEq] at h
  obtain ⟨hlt, hd⟩ := h
  by_cases hdecimal : 48 ≤ c.toNat ∧ c.toNat ≤ 57
  · rw [if_pos hdecimal] at hd
    omega
  · by_cases hlower : 97 ≤ c.toNat ∧ c.toNat ≤ 102
    · rw [if_neg hdecimal, if_pos hlower] at hd
      omega
    · by_cases hupper : 65 ≤ c.toNat ∧ c.toNat ≤ 70
      · rw [if_neg hdecimal, if_neg hlower, if_pos hupper] at hd
        omega
      · rw [if_neg hdecimal, if_neg hlower, if_neg hupper] at hlt
        exact absurd hlt (Nat.lt_irrefl radix)

/-- A digit is not blank. -/
theorem isBlank_of_digit? (h : (digit? radix c).isSome = true) : isBlank c = false := by
  obtain ⟨d, hd⟩ := Option.isSome_iff_exists.mp h
  have hvalue := digit?_value hd
  unfold isBlank
  simp only [Bool.or_eq_false_iff, Bool.and_eq_false_iff, decide_eq_false_iff_not, beq_eq_false_iff_ne, ne_eq]
  omega

theorem isSome_digit?_of_value :
    ∀ {n m}, valueFrom? radix cs n = some m → ∀ c ∈ cs, (digit? radix c).isSome = true := by
  induction cs with
  | nil =>
    intro n m _ c hc
    cases hc
  | cons x cs ih =>
    intro n m h c hc
    simp only [valueFrom?] at h
    split at h
    · cases h
    · rename_i d hd
      cases hc with
      | head => simp [hd]
      | tail _ hc => exact ih h c hc

theorem Digits.isSome_digit? (h : Digits radix cs n) : ∀ c ∈ cs, (digit? radix c).isSome = true :=
  isSome_digit?_of_value h.2

/-- A character that is no digit does not stand among digits. -/
theorem Digits.not_mem (h : Digits radix cs n) {x : Char} (hx : digit? radix x = none) : x ∉ cs := by
  intro hmem
  have hsome := h.isSome_digit? x hmem
  rw [hx] at hsome
  cases hsome

/-- More digits make no number less. -/
theorem le_valueFrom? : ∀ {n m}, valueFrom? radix cs n = some m → n ≤ m := by
  induction cs with
  | nil =>
    intro n m h
    cases h
    exact Nat.le_refl n
  | cons x cs ih =>
    intro n m h
    simp only [valueFrom?] at h
    split at h
    · cases h
    · rename_i d hd
      have hlt := digit?_lt hd
      have hle : 1 * n ≤ radix * n := Nat.mul_le_mul_right n (by omega)
      have hmore := ih h
      omega

/-- Digits are read as what they are worth, unless that is past a word. -/
theorem readDigits_of_value : ∀ {n m}, n < UInt64.size → valueFrom? radix cs n = some m →
    readDigits radix cs n = if m < UInt64.size then .ok m else .error .tooLarge := by
  induction cs with
  | nil =>
    intro n m hn h
    cases h
    rw [readDigits, if_pos hn]
  | cons c cs ih =>
    intro n m hn h
    simp only [valueFrom?] at h
    split at h
    · cases h
    · rename_i d hd
      simp only [readDigits, hd]
      by_cases hfits : radix * n + d < UInt64.size
      · rw [if_pos hfits]
        exact ih hfits h
      · have hmore := le_valueFrom? h
        rw [if_neg hfits, if_neg (by omega)]

/-- No sign stands before digits. -/
theorem Digits.readUnsigned (h : Digits radix cs n) :
    Text.readUnsigned radix cs = if n < UInt64.size then .ok (UInt64.ofNat n) else .error .tooLarge := by
  obtain ⟨hne, hvalue⟩ := id h
  have hread := readDigits_of_value (by decide) hvalue
  have hplus : '+' ∉ cs := h.not_mem (by simp [digit?])
  cases cs with
  | nil => exact absurd rfl hne
  | cons c cs =>
    have hc : '+' ≠ c := List.ne_of_not_mem_cons hplus
    have hunsigned : Text.readUnsigned radix (c :: cs) = (readDigits radix (c :: cs) 0).map UInt64.ofNat := by
      unfold Text.readUnsigned
      split
      · rename_i heq
        cases heq
      · rename_i heq
        cases heq
        exact absurd rfl hc
      · rename_i heq
        cases heq
        exact absurd rfl hc
      · rename_i heq
        cases heq
        rfl
    rw [hunsigned, hread]
    by_cases hfits : n < UInt64.size
    · rw [if_pos hfits, if_pos hfits]
      rfl
    · rw [if_neg hfits, if_neg hfits]
      rfl

/-- Without a mark digits are read in base ten. -/
theorem Digits.readNumber_decimal (h : Digits 10 cs n) :
    readNumber cs = if n < UInt64.size then .ok (UInt64.ofNat n) else .error .tooLarge := by
  rw [← h.readUnsigned]
  unfold readNumber
  split
  · exact absurd (by simp) (h.not_mem (x := 'x') (by decide))
  · exact absurd (by simp) (h.not_mem (x := 'X') (by decide))
  · rfl

theorem Digits.readNumber_hexadecimal {x : Char} (hx : x = 'x' ∨ x = 'X') (h : Digits 16 cs n) :
    readNumber ('0' :: x :: cs) = if n < UInt64.size then .ok (UInt64.ofNat n) else .error .tooLarge := by
  rw [← h.readUnsigned]
  rcases hx with rfl | rfl
  · rfl
  · rfl

/-- A number is worth what its digits are. -/
theorem valueFrom?_toDigits (hpos : 1 < radix) (hradix : radix ≤ 16) (cs : List Char) (n : Nat) :
    valueFrom? radix (Nat.toDigits radix n ++ cs) 0 = valueFrom? radix cs n := by
  induction n using Nat.strongRecOn generalizing cs with
  | ind n ih =>
    rw [Nat.toDigits_eq_if hpos]
    split
    · rename_i hlt
      simp [valueFrom?, digit?_digitChar hradix hlt]
    · rename_i hge
      have hdiv : n / radix < n := Nat.div_lt_self (by omega) hpos
      have hsum : radix * (n / radix) + n % radix = n := Nat.div_add_mod n radix
      rw [List.append_assoc, ih _ hdiv]
      simp [valueFrom?, digit?_digitChar hradix (Nat.mod_lt n (by omega)), hsum]

theorem digits_toDigits (hpos : 1 < radix) (hradix : radix ≤ 16) (n : Nat) : Digits radix (Nat.toDigits radix n) n := by
  refine ⟨Nat.toDigits_ne_nil, ?_⟩
  have hvalue := valueFrom?_toDigits hpos hradix [] n
  rwa [List.append_nil] at hvalue

/-! ## What does not count -/

theorem trim_of_unblank (h : ∀ c ∈ cs, isBlank c = false) : trim cs = cs := by
  have hleft : ∀ cs : List Char, (∀ c ∈ cs, isBlank c = false) → cs.dropWhile isBlank = cs := by
    intro cs h
    cases cs with
    | nil => rfl
    | cons c cs => simp [h c List.mem_cons_self]
  have hreverse : ∀ c ∈ cs.reverse, isBlank c = false := by
    intro c hc
    exact h c (List.mem_reverse.mp hc)
  rw [trim, trimLeft, hleft cs h, trimRight, hleft _ hreverse, List.reverse_reverse]

theorem trim_cons_blank (h : isBlank c = true) (cs : List Char) : trim (c :: cs) = trim cs := by
  rw [trim, trimLeft, List.dropWhile_cons_of_pos h, ← trimLeft, ← trim]

theorem trimRight_append_blank (h : isBlank c = true) (cs : List Char) : trimRight (cs ++ [c]) = trimRight cs := by
  rw [trimRight, List.reverse_append, List.reverse_singleton, List.singleton_append, List.dropWhile_cons_of_pos h,
    ← trimRight]

theorem trim_append_blank (h : isBlank c = true) (cs : List Char) : trim (cs ++ [c]) = trim cs := by
  rw [trim, trim, trimLeft, List.dropWhile_append]
  by_cases hblank : (cs.dropWhile isBlank).isEmpty = true
  · rw [if_pos hblank, List.dropWhile_cons_of_pos h, List.dropWhile_nil, trimLeft, List.isEmpty_iff.mp hblank]
  · rw [if_neg hblank, trimRight_append_blank h, trimLeft]

/-- Trimming has nothing left to do at an end that is trimmed. -/
theorem trim_trimRight (cs : List Char) : trim (trimRight cs) = trim cs := by
  have hreverse : ∀ ds : List Char, trim (ds.dropWhile isBlank).reverse = trim ds.reverse := by
    intro ds
    induction ds with
    | nil => rfl
    | cons c ds ih =>
      by_cases h : isBlank c = true
      · rw [List.dropWhile_cons_of_pos h, ih, List.reverse_cons, trim_append_blank h]
      · rw [List.dropWhile_cons_of_neg h]
  rw [trimRight, hreverse, List.reverse_reverse]

/-- A character that is not blank keeps all that is before it from being trimmed. -/
theorem trim_cons (h : isBlank c = false) (cs : List Char) : trim (c :: cs) = c :: trimRight cs := by
  have hc : ¬ isBlank c = true := by simp [h]
  rw [trim, trimLeft, List.dropWhile_cons_of_neg hc, trimRight, trimRight, List.reverse_cons, List.dropWhile_append]
  by_cases hblank : (cs.reverse.dropWhile isBlank).isEmpty = true
  · rw [if_pos hblank, List.dropWhile_cons_of_neg hc, List.isEmpty_iff.mp hblank]
    rfl
  · rw [if_neg hblank, List.reverse_append]
    rfl

theorem filter_of_not_mem {x : Char} (h : x ∉ cs) : cs.filter (· != x) = cs := by
  rw [List.filter_eq_self]
  intro c hc
  simp only [bne_iff_ne, ne_eq]
  intro heq
  exact h (heq ▸ hc)

end Lifter.Text
