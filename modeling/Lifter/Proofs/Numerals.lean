/-
  Lifter.Proofs.Numerals — numbers that are written are read back.

  The digits of a number, in any base up to sixteen and behind any zeros, are read as
  that number (`readDigits_padLeft`). So no two numbers of 64 bits are written alike,
  with a mark before them, in a column or in bytes.
-/

import Lifter.Text.Numeral

namespace Lifter.Text

/-! ## Digits -/

theorem digit?_digitChar {radix d : Nat} (hradix : radix ≤ 16) (hd : d < radix) :
    digit? radix d.digitChar = some d := by
  have hall : ∀ radix ≤ 16, ∀ d < radix, digit? radix d.digitChar = some d := by decide
  exact hall radix hradix d hd

/-- Nothing before `0` is a digit. -/
theorem le_toNat_of_digit? {radix : Nat} {c : Char} (h : (digit? radix c).isSome = true) : 48 ≤ c.toNat := by
  rcases Nat.lt_or_ge c.toNat 48 with hlow | hle
  · have hnone : digit? radix c = none := by
      have hdecimal : ¬ (48 ≤ c.toNat ∧ c.toNat ≤ 57) := by omega
      have hlower : ¬ (97 ≤ c.toNat ∧ c.toNat ≤ 102) := by omega
      have hupper : ¬ (65 ≤ c.toNat ∧ c.toNat ≤ 70) := by omega
      simp only [digit?, if_neg hdecimal, if_neg hlower, if_neg hupper, if_neg (Nat.lt_irrefl _)]
    rw [hnone] at h
    cases h
  · exact hle

/-- What follows is read behind the number. -/
theorem readDigits_toDigits {radix : Nat} (hpos : 1 < radix) (hradix : radix ≤ 16) (cs : List Char) {n : Nat}
    (hn : n < UInt64.size) : readDigits radix (Nat.toDigits radix n ++ cs) 0 = readDigits radix cs n := by
  induction n using Nat.strongRecOn generalizing cs with
  | ind n ih =>
    rw [Nat.toDigits_eq_if hpos]
    split
    · rename_i hlt
      simp only [List.singleton_append, readDigits, digit?_digitChar hradix hlt, Nat.mul_zero, Nat.zero_add, if_pos hn]
    · rename_i hge
      have hdiv : n / radix < n := Nat.div_lt_self (by omega) hpos
      have hsum : radix * (n / radix) + n % radix = n := Nat.div_add_mod n radix
      rw [List.append_assoc, ih _ hdiv _ (by omega)]
      simp only [List.singleton_append, readDigits, digit?_digitChar hradix (Nat.mod_lt n (by omega)), hsum, if_pos hn]

theorem readDigits_zeros {radix : Nat} (hpos : 0 < radix) (k : Nat) (cs : List Char) :
    readDigits radix (List.replicate k '0' ++ cs) 0 = readDigits radix cs 0 := by
  have hzero : digit? radix '0' = some 0 := by simp [digit?, hpos]
  induction k with
  | zero => rfl
  | succ k ih => simpa [List.replicate_succ, readDigits, hzero, UInt64.size] using ih

theorem readDigits_padLeft {n : Nat} (hn : n < UInt64.size) (width : Nat) :
    readDigits 16 (padLeft width '0' (hexDigits n)) 0 = .ok n := by
  rw [padLeft, readDigits_zeros (by decide), hexDigits, ← List.append_nil (Nat.toDigits 16 n),
    readDigits_toDigits (by decide) (by decide) _ hn, readDigits]

/-- Only digits are read. -/
theorem isSome_digit?_of_readDigits {radix n : Nat} {cs : List Char} :
    ∀ {value : Nat}, readDigits radix cs value = .ok n → ∀ c ∈ cs, (digit? radix c).isSome = true := by
  induction cs with
  | nil => intro value h c hc; cases hc
  | cons d ds ih =>
    intro value h c hc
    simp only [readDigits] at h
    split at h
    · cases h
    · rename_i hd
      split at h
      · rcases List.mem_cons.mp hc with rfl | hc
        · rw [hd, Option.isSome_some]
        · exact ih h c hc
      · cases h

theorem padLeft_inj {m n : Nat} (hm : m < UInt64.size) (hn : n < UInt64.size) {width : Nat}
    (h : padLeft width '0' (hexDigits m) = padLeft width '0' (hexDigits n)) : m = n := by
  have hread := readDigits_padLeft hm width
  rw [h, readDigits_padLeft hn width] at hread
  exact (Except.ok.inj hread).symm

/-! ## Addresses and bytes -/

theorem hex_inj {m n : UInt64} (h : hex m = hex n) : m = n := by
  have hdigits : String.ofList (hexDigits m.toNat) = String.ofList (hexDigits n.toNat) := by
    simpa [hex, hexNat] using h
  have hpadded : padLeft 0 '0' (hexDigits m.toNat) = padLeft 0 '0' (hexDigits n.toNat) := by
    rw [String.ofList_injective hdigits]
  exact UInt64.toNat_inj.mp (padLeft_inj m.toNat_lt n.toNat_lt hpadded)

theorem toNat_lt_size (b : UInt8) : b.toNat < UInt64.size := Nat.lt_trans b.toNat_lt (by decide)

theorem hexByte_inj {a b : UInt8} (h : hexByte a = hexByte b) : a = b :=
  UInt8.toNat_inj.mp (padLeft_inj (toNat_lt_size a) (toNat_lt_size b) (String.ofList_injective h))

theorem space_not_mem_hexByte (b : UInt8) : ' ' ∉ (hexByte b).toList := by
  intro hmem
  rw [hexByte, String.toList_ofList] at hmem
  have hdigit := isSome_digit?_of_readDigits (readDigits_padLeft (toNat_lt_size b) 2) ' ' hmem
  exact absurd hdigit (by decide)

theorem hexByte_ne_nil (b : UInt8) : (hexByte b).toList ≠ [] := by
  rw [hexByte, String.toList_ofList, padLeft]
  exact List.append_ne_nil_of_right_ne_nil _ Nat.toDigits_ne_nil

/-- The spaces between bytes part the text into the bytes. -/
theorem splitOn_hexBytes {bytes : List UInt8} (h : bytes ≠ []) :
    (hexBytes bytes).toList.splitOn ' ' = bytes.map fun b => (hexByte b).toList := by
  rw [hexBytes, String.toList_intercalate, List.map_map]
  refine List.splitOn_intercalate ' ' (fun l hl => ?_) (by simpa using h)
  obtain ⟨b, -, rfl⟩ := List.mem_map.mp hl
  exact space_not_mem_hexByte b

theorem hexBytes_inj {as bs : List UInt8} (h : hexBytes as = hexBytes bs) : as = bs := by
  have hmap : as.map (fun b => (hexByte b).toList) = bs.map (fun b => (hexByte b).toList) → as = bs :=
    (List.map_inj_right fun a b hab => hexByte_inj (String.toList_inj.mp hab)).mp
  -- no bytes are written as no text, which is not how any byte is written
  have hnil : ∀ b bs, hexBytes (b :: bs) ≠ hexBytes [] := by
    intro b bs hempty
    have hsplit := splitOn_hexBytes (List.cons_ne_nil b bs)
    rw [hempty] at hsplit
    exact hexByte_ne_nil b (List.cons.inj hsplit).1.symm
  cases as with
  | nil =>
    cases bs with
    | nil => rfl
    | cons b bs => exact absurd h.symm (hnil b bs)
  | cons a as =>
    cases bs with
    | nil => exact absurd h (hnil a as)
    | cons b bs =>
      rw [← splitOn_hexBytes (List.cons_ne_nil a as), ← splitOn_hexBytes (List.cons_ne_nil b bs), h] at hmap
      exact hmap rfl

end Lifter.Text
