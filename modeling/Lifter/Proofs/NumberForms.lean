/-
  Lifter.Proofs.NumberForms — the ways to write a number in a description.

  A number is spelled in digits of either case, behind any zeros (`Spelled`); these are
  the digits that are read (`spelled_iff`). It may have a mark for hexadecimal, underscores
  anywhere behind the first character (`Numeral`) and blanks around it (`WrittenNumber`).
  An integer may have a minus sign, with more blanks around that (`WrittenInteger`). However
  it is written, a number is read as what it is if a word can hold it, and is refused
  otherwise; so is an integer, by its size (`numbers_exact`).
-/

import Lifter.Proofs.NumberTexts
import Lifter.Specification.Number

namespace Lifter.Text

/-! ## Spelling -/

/-- Digits above nine have two cases. -/
def DigitOf (d : Nat) (c : Char) : Prop := c = d.digitChar ∨ c = d.digitChar.toUpper

/-- Each digit counts the ones before it `radix` times. -/
inductive Spelled (radix : Nat) : List Char → Nat → Prop
  | first {c : Char} {d : Nat} (hd : d < radix) (hc : DigitOf d c) : Spelled radix [c] d
  | more {cs : List Char} {n : Nat} {c : Char} {d : Nat} (h : Spelled radix cs n) (hd : d < radix) (hc : DigitOf d c) :
      Spelled radix (cs ++ [c]) (radix * n + d)

variable {radix : Nat} {c : Char} {cs : List Char} {d n : Nat}

theorem digit?_eq_some_iff (hradix : radix ≤ 16) : digit? radix c = some d ↔ d < radix ∧ DigitOf d c := by
  constructor
  · intro h
    refine ⟨digit?_lt h, ?_⟩
    have hdecimal : ∀ k < 10, Char.ofNat (48 + k) = k.digitChar := by decide
    have hlower : ∀ k < 16, 10 ≤ k → Char.ofNat (87 + k) = k.digitChar := by decide
    have hupper : ∀ k < 16, 10 ≤ k → Char.ofNat (55 + k) = k.digitChar.toUpper := by decide
    rw [DigitOf, ← Char.ofNat_toNat c]
    rcases digit?_value h with ⟨hc, hlt⟩ | ⟨hc, hle, hlt⟩ | ⟨hc, hle, hlt⟩
    · exact .inl (hc ▸ hdecimal d hlt)
    · exact .inl (hc ▸ hlower d hlt hle)
    · exact .inr (hc ▸ hupper d hlt hle)
  · have hall : ∀ radix ≤ 16, ∀ d < radix, digit? radix d.digitChar.toUpper = some d := by decide
    rintro ⟨hd, rfl | rfl⟩
    · exact digit?_digitChar hradix hd
    · exact hall radix hradix d hd

theorem valueFrom?_append (cs ds : List Char) :
    ∀ n, valueFrom? radix (cs ++ ds) n = (valueFrom? radix cs n).bind (valueFrom? radix ds) := by
  induction cs with
  | nil =>
    intro n
    rfl
  | cons c cs ih =>
    intro n
    simp only [List.cons_append, valueFrom?]
    cases digit? radix c with
    | none => rfl
    | some d => exact ih _

theorem Spelled.digits (hradix : radix ≤ 16) (h : Spelled radix cs n) : Digits radix cs n := by
  induction h with
  | first hd hc =>
    refine ⟨List.cons_ne_nil _ _, ?_⟩
    simp [valueFrom?, (digit?_eq_some_iff hradix).mpr ⟨hd, hc⟩]
  | more _ hd hc ih =>
    refine ⟨List.append_ne_nil_of_right_ne_nil _ (List.cons_ne_nil _ _), ?_⟩
    rw [valueFrom?_append, ih.2, Option.bind_some]
    simp [valueFrom?, (digit?_eq_some_iff hradix).mpr ⟨hd, hc⟩]

/-- Digits behind others spell what they are worth behind them. -/
theorem Spelled.append (hradix : radix ≤ 16) :
    ∀ {cs more : List Char} {n m : Nat}, Spelled radix cs n → valueFrom? radix more n = some m →
      Spelled radix (cs ++ more) m := by
  intro cs more
  induction more generalizing cs with
  | nil =>
    intro n m h hm
    cases hm
    rwa [List.append_nil]
  | cons c more ih =>
    intro n m h hm
    -- the reader goes on behind `c`, and what is spelled up to there has one more digit
    simp only [valueFrom?] at hm
    split at hm
    · cases hm
    · rename_i d hd
      obtain ⟨hlt, hc⟩ := (digit?_eq_some_iff hradix).mp hd
      have hrest := ih (h.more hlt hc) hm
      rwa [List.append_assoc, List.singleton_append] at hrest

theorem Digits.spelled (hradix : radix ≤ 16) (h : Digits radix cs n) : Spelled radix cs n := by
  obtain ⟨hne, hvalue⟩ := h
  cases cs with
  | nil => exact absurd rfl hne
  | cons c cs =>
    simp only [valueFrom?] at hvalue
    split at hvalue
    · cases hvalue
    · rename_i d hd
      obtain ⟨hlt, hc⟩ := (digit?_eq_some_iff hradix).mp hd
      rw [Nat.mul_zero, Nat.zero_add] at hvalue
      exact (Spelled.first hlt hc).append hradix hvalue

/-- The digits that are read are those that spell the number. -/
theorem spelled_iff (hradix : radix ≤ 16) : Spelled radix cs n ↔ Digits radix cs n :=
  ⟨Spelled.digits hradix, Digits.spelled hradix⟩

end Lifter.Text

namespace Lifter.Specification

open Text

/-! ## Numerals -/

/-- A number as it stands in a description, up to blanks. -/
inductive Numeral : List Char → Nat → Prop
  | decimal {cs : List Char} {n : Nat} (h : Spelled 10 cs n) : Numeral cs n
  | hexadecimal {x : Char} {cs : List Char} {n : Nat} (hx : x = 'x' ∨ x = 'X') (h : Spelled 16 cs n) :
      Numeral ('0' :: x :: cs) n
  | underscore {c : Char} {before behind : List Char} {n : Nat} (h : Numeral (c :: (before ++ behind)) n) :
      Numeral (c :: (before ++ '_' :: behind)) n

/-- A numeral with blanks around it. -/
inductive WrittenNumber : List Char → Nat → Prop
  | numeral {cs : List Char} {n : Nat} (h : Numeral cs n) : WrittenNumber cs n
  | blankBefore {b : Char} {cs : List Char} {n : Nat} (hb : isBlank b = true) (h : WrittenNumber cs n) :
      WrittenNumber (b :: cs) n
  | blankBehind {b : Char} {cs : List Char} {n : Nat} (hb : isBlank b = true) (h : WrittenNumber cs n) :
      WrittenNumber (cs ++ [b]) n

/-- A number with a sign or without, and blanks around that. -/
inductive WrittenInteger : List Char → Int → Prop
  | unsigned {cs : List Char} {n : Nat} (h : WrittenNumber cs n) : WrittenInteger cs n
  | negative {cs : List Char} {n : Nat} (h : WrittenNumber cs n) : WrittenInteger ('-' :: cs) (-n)
  | blankBefore {b : Char} {cs : List Char} {i : Int} (hb : isBlank b = true) (h : WrittenInteger cs i) :
      WrittenInteger (b :: cs) i
  | blankBehind {b : Char} {cs : List Char} {i : Int} (hb : isBlank b = true) (h : WrittenInteger cs i) :
      WrittenInteger (cs ++ [b]) i

variable {cs digits : List Char} {n : Nat} {i : Int}

namespace Numeral

/-- No character of a numeral is blank, and none is a sign. -/
theorem characters (h : Numeral cs n) : ∀ c ∈ cs, isBlank c = false ∧ c ≠ '-' := by
  have hdigit : ∀ {radix cs n}, Digits radix cs n → ∀ c ∈ cs, isBlank c = false ∧ c ≠ '-' := by
    intro radix cs n h c hc
    refine ⟨isBlank_of_digit? (h.isSome_digit? c hc), ?_⟩
    rintro rfl
    exact h.not_mem (x := '-') (by simp [digit?]) hc
  induction h with
  | decimal h => exact hdigit (h.digits (by decide))
  | hexadecimal hx h =>
    intro c hc
    rcases List.mem_cons.mp hc with rfl | hc
    · decide
    · rcases List.mem_cons.mp hc with rfl | hc
      · rcases hx with rfl | rfl
        · decide
        · decide
      · exact hdigit (h.digits (by decide)) c hc
  | underscore _ ih =>
    intro c hc
    simp only [List.mem_cons, List.mem_append] at hc ih
    rcases hc with hc | hc | rfl | hc
    · exact ih c (.inl hc)
    · exact ih c (.inr (.inl hc))
    · decide
    · exact ih c (.inr (.inr hc))

theorem trim_eq (h : Numeral cs n) : trim cs = cs := trim_of_unblank fun c hc => (h.characters c hc).1

/-- Without its underscores a numeral is read as its number, if a word can hold that. -/
theorem readNumber (h : Numeral cs n) :
    Text.readNumber (cs.filter (· != '_')) = if n < UInt64.size then .ok (UInt64.ofNat n) else .error .tooLarge := by
  induction h with
  | decimal h =>
    have hdigits := h.digits (by decide)
    rw [filter_of_not_mem (hdigits.not_mem (by decide)), hdigits.readNumber_decimal]
  | @hexadecimal x cs _ hx h =>
    have hdigits := h.digits (by decide)
    have hmark : '_' ∉ '0' :: x :: cs := by
      have hnot : '_' ∉ cs := hdigits.not_mem (by decide)
      rcases hx with rfl | rfl
      · simp [hnot]
      · simp [hnot]
    rw [filter_of_not_mem hmark, hdigits.readNumber_hexadecimal hx]
  | @underscore c before behind _ _ ih =>
    have hdropped : (c :: (before ++ '_' :: behind)).filter (· != '_') =
        (c :: (before ++ behind)).filter (· != '_') := by
      simp [List.filter_cons]
    rw [hdropped, ih]

end Numeral

theorem WrittenNumber.trim (h : WrittenNumber cs n) : Numeral (Text.trim cs) n := by
  induction h with
  | numeral h => rwa [h.trim_eq]
  | blankBefore hb _ ih => rwa [trim_cons_blank hb]
  | blankBehind hb _ ih => rwa [trim_append_blank hb]

/-- Between the outermost blanks an integer is a numeral, or a sign and behind it a number. -/
theorem WrittenInteger.trim_cases (h : WrittenInteger cs i) :
    (∃ n : Nat, i = n ∧ Numeral (trim cs) n) ∨
      ∃ (n : Nat) (rest : List Char), i = -n ∧ trim cs = '-' :: rest ∧ Numeral (trim rest) n := by
  induction h with
  | unsigned h => exact .inl ⟨_, rfl, h.trim⟩
  | negative h =>
    -- blanks behind the number are gone with those around the sign, blanks before it are not
    refine .inr ⟨_, _, rfl, trim_cons (by decide) _, ?_⟩
    rw [trim_trimRight]
    exact h.trim
  | blankBefore hb _ ih => rwa [trim_cons_blank hb]
  | blankBehind hb _ ih => rwa [trim_append_blank hb]

/-! ## Reading -/

theorem number?_of_numeral (h : Numeral (trim cs) n) :
    number? cs = if n < UInt64.size then some (UInt64.ofNat n) else none := by
  rw [number?, h.readNumber]
  by_cases hfits : n < UInt64.size
  · rw [if_pos hfits, if_pos hfits]
    rfl
  · rw [if_neg hfits, if_neg hfits]
    rfl

theorem toNat_number? (h : WrittenNumber cs n) :
    (number? cs).map (·.toNat) = if n < UInt64.size then some n else none := by
  rw [number?_of_numeral h.trim]
  by_cases hfits : n < UInt64.size
  · rw [if_pos hfits, if_pos hfits, Option.map_some, UInt64.toNat_ofNat_of_lt' hfits]
  · rw [if_neg hfits, if_neg hfits, Option.map_none]

/-- A number is the size of an integer if it is below 2^63. -/
theorem magnitude?_of_numeral (h : Numeral (trim cs) n) :
    magnitude? cs = if n < capacity 63 then some n else none := by
  have hword : capacity 63 ≤ UInt64.size := capacity_le_size (by decide)
  rw [magnitude?, number?_of_numeral h]
  by_cases hfits : n < UInt64.size
  · rw [if_pos hfits, Option.bind_some, UInt64.toNat_ofNat_of_lt' hfits]
  · rw [if_neg hfits, if_neg (by omega)]
    rfl

theorem integer?_eq (h : WrittenInteger cs i) : integer? cs = if i.natAbs < capacity 63 then some i else none := by
  rcases h.trim_cases with ⟨n, rfl, hn⟩ | ⟨n, rest, rfl, htrim, hn⟩
  · have hunsigned : ∀ rest, trim cs ≠ '-' :: rest := by
      intro rest htrim
      exact (hn.characters '-' (by rw [htrim]; exact List.mem_cons_self)).2 rfl
    unfold integer?
    split
    · rename_i rest htrim
      exact absurd htrim (hunsigned rest)
    · rw [magnitude?_of_numeral hn, Int.natAbs_natCast]
      by_cases hlow : n < capacity 63
      · simp [hlow]
      · simp [hlow]
  · rw [integer?, htrim]
    simp only [magnitude?_of_numeral hn, Int.natAbs_neg, Int.natAbs_natCast]
    by_cases hlow : n < capacity 63
    · simp [hlow]
    · simp [hlow]

/-! ## Digits and a mark -/

theorem number?_decimal (h : Digits 10 digits n) :
    number? digits = if n < UInt64.size then some (UInt64.ofNat n) else none :=
  number?_of_numeral (WrittenNumber.numeral (.decimal (h.spelled (by decide)))).trim

theorem writtenNumber_hexadecimal (h : Digits 16 digits n) : WrittenNumber ('0' :: 'x' :: digits) n :=
  .numeral (.hexadecimal (.inl rfl) (h.spelled (by decide)))

theorem integer?_hexadecimal (h : Digits 16 digits n) :
    integer? ('0' :: 'x' :: digits) = if n < capacity 63 then some (n : Int) else none :=
  integer?_eq (.unsigned (writtenNumber_hexadecimal h))

theorem integer?_negative (h : Digits 16 digits n) :
    integer? ('-' :: '0' :: 'x' :: digits) = if n < capacity 63 then some (-n : Int) else none := by
  rw [integer?_eq (.negative (writtenNumber_hexadecimal h)), Int.natAbs_neg, Int.natAbs_natCast]

/-! ## Exactness -/

/-- However it is written, a number is read as what it is, or is refused if it has more than 64 bits; an integer
    is read as what it is, or is refused if its size has more than 63. -/
theorem numbers_exact (cs : List Char) :
    (∀ n, WrittenNumber cs n → (number? cs).map (·.toNat) = if n < capacity 64 then some n else none) ∧
      ∀ i, WrittenInteger cs i → integer? cs = if i.natAbs < capacity 63 then some i else none :=
  ⟨fun _ => toNat_number?, fun _ => integer?_eq⟩

/-- Both cases, zeros, underscores and blanks in one text; and the least number that a word cannot hold. -/
theorem numbers_exact_mixed :
    let text := ['\t', '0', '_', 'X', '0', '0', 'f', '_', 'F', '_', ' ']
    let excess := Nat.toDigits 10 (capacity 64)
    WrittenNumber text 255 ∧ (number? text).map (·.toNat) = some 255 ∧
      WrittenInteger ('-' :: text) (-255) ∧ integer? ('-' :: text) = some (-255) ∧
      WrittenNumber excess (capacity 64) ∧ number? excess = none := by
  intro text excess
  have hdigits : Numeral ('0' :: 'X' :: ['0', '0', 'f', 'F']) 255 :=
    .hexadecimal (.inr rfl) ((spelled_iff (by decide)).mpr (by decide))
  have hlast : Numeral ('0' :: (['X', '0', '0', 'f', 'F'] ++ '_' :: [])) 255 := .underscore hdigits
  have hinner : Numeral ('0' :: (['X', '0', '0', 'f'] ++ '_' :: ['F', '_'])) 255 := .underscore hlast
  have hmark : Numeral ('0' :: ([] ++ '_' :: ['X', '0', '0', 'f', '_', 'F', '_'])) 255 := .underscore hinner
  have htext : WrittenNumber text 255 := .blankBefore (by decide) ((WrittenNumber.numeral hmark).blankBehind (by decide))
  have hexcess : WrittenNumber excess (capacity 64) :=
    .numeral (.decimal ((digits_toDigits (by decide) (by decide) (capacity 64)).spelled (by decide)))
  have hrefused := (numbers_exact excess).1 _ hexcess
  rw [if_neg (by decide), Option.map_eq_none_iff] at hrefused
  exact ⟨htext, (numbers_exact text).1 255 htext, .negative htext, (numbers_exact ('-' :: text)).2 _ (.negative htext),
    hexcess, hrefused⟩

end Lifter.Specification
