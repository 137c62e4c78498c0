/-
  Lifter.Proofs.JsonText — what the compact form of a JSON value says.

  The compact form fits on a line: whatever its texts hold, no character of it is a
  control character (`printable_compact`). And it says which value it is, also where
  more text follows, as long as that does not go on with the digits of a number
  (`compact_unambiguous`). Both go up from the escapes: an escape is told from another
  by its own characters, so a text ends at the first quote that is no part of one.
-/

import Lifter.Json
import Lifter.Proofs.Numerals

namespace Lifter.Json

open Text

/-! ## Escapes -/

/-- The characters that are escaped with a letter, and their letters. -/
def letters : List (Char × Char) :=
  [('"', '"'), ('\\', '\\'), ('\x08', 'b'), ('\t', 't'), ('\n', 'n'), ('\x0c', 'f'), ('\r', 'r')]

/-- A character stands for itself, has a letter, or is written by its number. -/
theorem escapeChar_cases (c : Char) :
    (escapeChar c = [c] ∧ c ≠ '"' ∧ c ≠ '\\' ∧ 0x20 ≤ c.toNat) ∨
      (∃ l, (c, l) ∈ letters ∧ escapeChar c = ['\\', l]) ∨
      c.toNat < 0x20 ∧ escapeChar c = '\\' :: 'u' :: padLeft 4 '0' (hexDigits c.toNat) := by
  unfold escapeChar
  split
  case h_8 hquote hbackslash _ _ _ _ _ =>
    by_cases hlow : c.toNat < 0x20
    · exact .inr (.inr ⟨hlow, if_pos hlow⟩)
    · exact .inl ⟨if_neg hlow, hquote, hbackslash, Nat.le_of_not_lt hlow⟩
  all_goals exact .inr (.inl ⟨_, by decide, rfl⟩)

theorem letters_inj {c d l : Char} (hc : (c, l) ∈ letters) (hd : (d, l) ∈ letters) : c = d := by
  have hall : ∀ p ∈ letters, ∀ q ∈ letters, p.2 = q.2 → p.1 = q.1 := by decide
  exact hall _ hc _ hd rfl

theorem letters_ne_u {c l : Char} (h : (c, l) ∈ letters) : l ≠ 'u' := by
  have hall : ∀ p ∈ letters, p.2 ≠ 'u' := by decide
  exact hall _ h

theorem length_padLeft_hexDigits {n : Nat} (h : n < 0x20) : (padLeft 4 '0' (hexDigits n)).length = 4 := by
  have hlen : (hexDigits n).length ≤ 4 := (Nat.length_toDigits_le_iff (by decide) (by decide)).mpr (by omega)
  rw [padLeft, List.length_append, List.length_replicate]
  omega

/-- One escape is told from another by what is written, whatever follows. -/
theorem escapeChar_append_inj {c d : Char} {r r' : List Char} (h : escapeChar c ++ r = escapeChar d ++ r') :
    c = d ∧ r = r' := by
  rcases escapeChar_cases c with ⟨hc, -, hbackslash, -⟩ | ⟨l, hl, hc⟩ | ⟨hlow, hc⟩ <;>
    rcases escapeChar_cases d with ⟨hd, -, hbackslash', -⟩ | ⟨l', hl', hd⟩ | ⟨hlow', hd⟩ <;>
    rw [hc, hd] at h <;> simp only [List.cons_append, List.nil_append, List.cons.injEq, true_and] at h
  case inl.inl => exact h
  case inl.inr.inl => exact absurd h.1 hbackslash
  case inl.inr.inr => exact absurd h.1 hbackslash
  case inr.inl.inl => exact absurd h.1.symm hbackslash'
  case inr.inl.inr.inl =>
    obtain ⟨rfl, hr⟩ := h
    exact ⟨letters_inj hl hl', hr⟩
  case inr.inl.inr.inr => exact absurd h.1 (letters_ne_u hl)
  case inr.inr.inl => exact absurd h.1.symm hbackslash'
  case inr.inr.inr.inl => exact absurd h.1.symm (letters_ne_u hl')
  case inr.inr.inr.inr =>
    have hsize : ∀ {n : Nat}, n < 0x20 → n < UInt64.size := fun h => Nat.lt_trans h (by decide)
    obtain ⟨hdigits, hr⟩ :=
      List.append_inj h (by rw [length_padLeft_hexDigits hlow, length_padLeft_hexDigits hlow'])
    exact ⟨Char.toNat_inj.mp (padLeft_inj (hsize hlow) (hsize hlow') hdigits), hr⟩

theorem escapeChar_ne_quote (c : Char) (r r' : List Char) : escapeChar c ++ r ≠ '"' :: r' := by
  intro h
  rcases escapeChar_cases c with ⟨hc, hquote, -, -⟩ | ⟨l, -, hc⟩ | ⟨-, hc⟩ <;>
    rw [hc] at h <;> simp only [List.cons_append, List.nil_append, List.cons.injEq] at h
  case inl => exact hquote h.1
  all_goals exact absurd h.1 (by decide)

/-! ## Texts -/

/-- A text ends at the first quote that is no part of an escape. -/
theorem escaped_append_inj {cs : List Char} :
    ∀ {ds r r' : List Char}, cs.flatMap escapeChar ++ '"' :: r = ds.flatMap escapeChar ++ '"' :: r' →
      cs = ds ∧ r = r' := by
  induction cs with
  | nil =>
    intro ds r r' h
    cases ds with
    | nil => exact ⟨rfl, (List.cons.inj h).2⟩
    | cons d ds =>
      rw [List.flatMap_cons, List.append_assoc] at h
      exact absurd h.symm (escapeChar_ne_quote d _ _)
  | cons c cs ih =>
    intro ds r r' h
    rw [List.flatMap_cons, List.append_assoc] at h
    cases ds with
    | nil => exact absurd h (escapeChar_ne_quote c _ _)
    | cons d ds =>
      rw [List.flatMap_cons, List.append_assoc] at h
      obtain ⟨rfl, hrest⟩ := escapeChar_append_inj h
      obtain ⟨rfl, hr⟩ := ih hrest
      exact ⟨rfl, hr⟩

theorem quote_append_inj {s t : String} {r r' : List Char} (h : quote s ++ r = quote t ++ r') : s = t ∧ r = r' := by
  simp only [quote, List.cons_append, List.append_assoc, List.nil_append, List.cons.injEq, true_and] at h
  obtain ⟨hchars, hr⟩ := escaped_append_inj h
  exact ⟨String.toList_inj.mp hchars, hr⟩

/-! ## Numbers -/

/-- The text does not go on with the digits of a number before it. -/
def Stops (rest : List Char) : Prop := ∀ c ∈ rest.head?, c.isDigit = false

theorem stops_nil : Stops [] := fun _ hc => (by cases hc)

theorem stops_cons {c : Char} {rest : List Char} (h : c.isDigit = false) : Stops (c :: rest) := by
  intro d hd
  cases hd
  exact h

theorem isDigit_of_mem {n : Nat} {c : Char} (h : c ∈ Nat.toDigits 10 n) : c.isDigit = true :=
  Nat.isDigit_of_mem_toDigits (by decide) (by decide) h

theorem takeWhile_number {n : Nat} {rest : List Char} (h : Stops rest) :
    (Nat.toDigits 10 n ++ rest).takeWhile Char.isDigit = Nat.toDigits 10 n := by
  have hrest : rest.takeWhile Char.isDigit = [] := by
    cases rest with
    | nil => rfl
    | cons c cs => rw [List.takeWhile_cons_of_neg (by rw [h c rfl]; decide)]
  rw [List.takeWhile_append_of_pos fun c hc => isDigit_of_mem hc, hrest, List.append_nil]

theorem number_append_inj {m n : Nat} {r r' : List Char} (hr : Stops r) (hr' : Stops r')
    (h : Nat.toDigits 10 m ++ r = Nat.toDigits 10 n ++ r') : m = n ∧ r = r' := by
  have hdigits : Nat.toDigits 10 m = Nat.toDigits 10 n := by
    rw [← takeWhile_number (n := m) hr, h, takeWhile_number hr']
  have hmn : m = n := by
    rw [← Nat.ofDigitChars_ten_toDigits (n := m), hdigits, Nat.ofDigitChars_ten_toDigits]
  exact ⟨hmn, List.append_cancel_left (hdigits ▸ h)⟩

/-- What is no digit does not begin a number. -/
theorem number_ne_cons {n : Nat} {c : Char} {r r' : List Char} (hc : c.isDigit = false) :
    Nat.toDigits 10 n ++ r ≠ c :: r' := by
  intro h
  cases hdigits : Nat.toDigits 10 n with
  | nil => exact Nat.toDigits_ne_nil hdigits
  | cons d ds =>
    rw [hdigits] at h
    have hd : d.isDigit = true := isDigit_of_mem (n := n) (hdigits ▸ List.mem_cons_self)
    rw [(List.cons.inj h).1, hc] at hd
    cases hd

/-! ## Sequences -/

section Sequences

variable {α : Type} {write : α → List Char}

/-- Items with a comma between two of them. -/
def sequence (write : α → List Char) : List α → List Char
  | [] => []
  | x :: xs => write x ++ xs.flatMap fun y => ',' :: write y

/-- What is written for `x` is the beginning of nothing else that could be written, up to what stops a number. -/
def Unambiguous (write : α → List Char) (x : α) : Prop :=
  ∀ (y : α) (r r' : List Char), Stops r → Stops r' → write x ++ r = write y ++ r' → x = y ∧ r = r'

variable {close : Char} {xs : List α}

theorem stops_behind (hclose : close.isDigit = false) (xs : List α) (r : List Char) :
    Stops (xs.flatMap (fun y => ',' :: write y) ++ close :: r) := by
  cases xs with
  | nil => exact stops_cons hclose
  | cons x xs => exact stops_cons (by decide)

/-- The items behind the first one. -/
theorem behind_append_inj (hclose : close.isDigit = false) (hcomma : close ≠ ',')
    (h : ∀ x ∈ xs, Unambiguous write x) :
    ∀ {ys : List α} {r r' : List Char},
      xs.flatMap (fun y => ',' :: write y) ++ close :: r = ys.flatMap (fun y => ',' :: write y) ++ close :: r' →
      xs = ys ∧ r = r' := by
  induction xs with
  | nil =>
    intro ys r r' heq
    cases ys with
    | nil => exact ⟨rfl, (List.cons.inj heq).2⟩
    | cons y ys => exact absurd (List.cons.inj heq).1 hcomma
  | cons x xs ih =>
    intro ys r r' heq
    cases ys with
    | nil => exact absurd (List.cons.inj heq).1.symm hcomma
    | cons y ys =>
      simp only [List.flatMap_cons, List.cons_append, List.append_assoc, List.cons.injEq, true_and] at heq
      obtain ⟨rfl, hrest⟩ := h x List.mem_cons_self y _ _ (stops_behind hclose xs r) (stops_behind hclose ys r') heq
      obtain ⟨rfl, hr⟩ := ih (fun z hz => h z (List.mem_cons_of_mem _ hz)) hrest
      exact ⟨rfl, hr⟩

/-- A sequence ends where it is closed, if no item begins as the end does. -/
theorem sequence_append_inj (hclose : close.isDigit = false) (hcomma : close ≠ ',')
    (hopen : ∀ x r r', write x ++ r ≠ close :: r') (h : ∀ x ∈ xs, Unambiguous write x) {ys : List α}
    {r r' : List Char} (heq : sequence write xs ++ close :: r = sequence write ys ++ close :: r') :
    xs = ys ∧ r = r' := by
  cases xs with
  | nil =>
    cases ys with
    | nil => exact ⟨rfl, (List.cons.inj heq).2⟩
    | cons y ys =>
      rw [sequence, sequence, List.append_assoc] at heq
      exact absurd heq.symm (hopen y _ _)
  | cons x xs =>
    rw [sequence, List.append_assoc] at heq
    cases ys with
    | nil => exact absurd heq (hopen x _ _)
    | cons y ys =>
      rw [sequence, List.append_assoc] at heq
      obtain ⟨rfl, hrest⟩ := h x List.mem_cons_self y _ _ (stops_behind hclose xs r) (stops_behind hclose ys r') heq
      obtain ⟨rfl, hr⟩ := behind_append_inj hclose hcomma (fun z hz => h z (List.mem_cons_of_mem _ hz)) hrest
      exact ⟨rfl, hr⟩

theorem mem_sequence {c : Char} (h : c ∈ sequence write xs) : c = ',' ∨ ∃ x ∈ xs, c ∈ write x := by
  cases xs with
  | nil => cases h
  | cons x xs =>
    simp only [sequence, List.mem_append, List.mem_flatMap, List.mem_cons] at h ⊢
    rcases h with h | ⟨y, hy, h | h⟩
    · exact .inr ⟨x, .inl rfl, h⟩
    · exact .inl h
    · exact .inr ⟨y, .inr hy, h⟩

end Sequences

def compactMember (m : String × Json) : List Char := quote m.1 ++ ':' :: compact m.2

theorem compactItems_eq (js : List Json) : compactItems js = sequence compact js := by
  induction js with
  | nil => rfl
  | cons j js ih =>
    cases js with
    | nil => simp [compactItems, sequence]
    | cons k ks =>
      rw [compactItems, ih]
      · simp [sequence]
      · simp

theorem compactMembers_eq (ms : List (String × Json)) : compactMembers ms = sequence compactMember ms := by
  induction ms with
  | nil => rfl
  | cons m ms ih =>
    obtain ⟨key, j⟩ := m
    cases ms with
    | nil => simp [compactMembers, sequence, compactMember]
    | cons m ms =>
      rw [compactMembers, ih]
      · simp [sequence, compactMember]
      · simp

/-! ## Values -/

/-- What holds of a value as soon as it holds of the values in it. -/
theorem induction {P : Json → Prop} (null : P .null) (number : ∀ n, P (.number n)) (text : ∀ s, P (.text s))
    (array : ∀ js, (∀ j ∈ js, P j) → P (.array js))
    (object : ∀ ms : List (String × Json), (∀ m ∈ ms, P m.2) → P (.object ms)) (j : Json) : P j := by
  refine Json.rec (motive_1 := P) (motive_2 := fun js => ∀ j ∈ js, P j) (motive_3 := fun ms => ∀ m ∈ ms, P m.2)
    (motive_4 := fun m => P m.2) null number text array object ?_ ?_ ?_ ?_ ?_ j
  · intro j hj; cases hj
  · intro j js hj hjs
    exact List.forall_mem_cons.mpr ⟨hj, hjs⟩
  · intro m hm; cases hm
  · intro m ms hm hms
    exact List.forall_mem_cons.mpr ⟨hm, hms⟩
  · intro key j hj; exact hj

/-- A value begins with a letter, a quote, a bracket or a digit, and not with what closes. -/
theorem compact_ne_cons {c : Char} (hdigit : c.isDigit = false) (hc : c ∉ ['n', '"', '[', '\x7b']) (j : Json)
    (r r' : List Char) : compact j ++ r ≠ c :: r' := by
  simp only [List.mem_cons, List.not_mem_nil, or_false, not_or] at hc
  obtain ⟨hletter, hquote, hbracket, hbrace⟩ := hc
  intro h
  cases j with
  | null => exact hletter (List.cons.inj h).1.symm
  | number n => exact number_ne_cons hdigit h
  | text s => exact hquote (List.cons.inj h).1.symm
  | array js => exact hbracket (List.cons.inj h).1.symm
  | object ms => exact hbrace (List.cons.inj h).1.symm

/-- The compact form says which value it is, whatever follows that does not go on with a number. -/
theorem compact_unambiguous (j : Json) : Unambiguous compact j := by
  induction j using Json.induction with
  | null =>
    intro k r r' hr hr' h
    cases k with
    | null => exact ⟨rfl, by simpa [compact] using h⟩
    | number n => exact absurd h.symm (number_ne_cons (by decide))
    | text | array | object => simp [compact, quote] at h
  | number m =>
    intro k r r' hr hr' h
    cases k with
    | number n =>
      obtain ⟨rfl, hrest⟩ := number_append_inj hr hr' h
      exact ⟨rfl, hrest⟩
    | null | text | array | object => exact absurd h (number_ne_cons (by decide))
  | text s =>
    intro k r r' hr hr' h
    cases k with
    | text t =>
      obtain ⟨rfl, hrest⟩ := quote_append_inj h
      exact ⟨rfl, hrest⟩
    | number n => exact absurd h.symm (number_ne_cons (by decide))
    | null | array | object => simp [compact, quote] at h
  | array js ih =>
    intro k r r' hr hr' h
    cases k with
    | array ks =>
      simp only [compact, compactItems_eq, List.cons_append, List.append_assoc, List.nil_append, List.cons.injEq,
        true_and] at h
      obtain ⟨rfl, hrest⟩ := sequence_append_inj (by decide) (by decide)
        (compact_ne_cons (by decide) (by decide)) ih h
      exact ⟨rfl, hrest⟩
    | number n => exact absurd h.symm (number_ne_cons (by decide))
    | null | text | object => simp [compact, quote] at h
  | object ms ih =>
    intro k r r' hr hr' h
    -- a member is a quoted key and a value, each of which says where it ends
    have hmember : ∀ m ∈ ms, Unambiguous compactMember m := by
      rintro ⟨key, j⟩ hm ⟨key', k⟩ r r' hr hr' h
      simp only [compactMember, List.append_assoc, List.cons_append] at h
      obtain ⟨rfl, hvalue⟩ := quote_append_inj h
      obtain ⟨rfl, hrest⟩ := ih _ hm k r r' hr hr' (List.cons.inj hvalue).2
      exact ⟨rfl, hrest⟩
    have hopen : ∀ m r r', compactMember m ++ r ≠ '\x7d' :: r' := by
      intro m r r' h
      simp [compactMember, quote] at h
    cases k with
    | object ns =>
      simp only [compact, compactMembers_eq, List.cons_append, List.append_assoc, List.nil_append, List.cons.injEq,
        true_and] at h
      obtain ⟨rfl, hrest⟩ := sequence_append_inj (by decide) (by decide) hopen hmember h
      exact ⟨rfl, hrest⟩
    | number n => exact absurd h.symm (number_ne_cons (by decide))
    | null | text | array => simp [compact, quote] at h

theorem compact_inj {j k : Json} (h : compact j = compact k) : j = k :=
  (compact_unambiguous j k [] [] stops_nil stops_nil (by rw [h])).1

/-! ## Lines -/

/-- No character is a control character. -/
def Printable (cs : List Char) : Prop := ∀ c ∈ cs, 0x20 ≤ c.toNat

instance (cs : List Char) : Decidable (Printable cs) := List.decidableBAll _ cs

section Lines

variable {cs ds : List Char}

theorem Printable.append (hcs : Printable cs) (hds : Printable ds) : Printable (cs ++ ds) := by
  intro c hc
  rcases List.mem_append.mp hc with hc | hc
  · exact hcs c hc
  · exact hds c hc

theorem Printable.cons {c : Char} (hc : 0x20 ≤ c.toNat) (hcs : Printable cs) : Printable (c :: cs) :=
  List.forall_mem_cons.mpr ⟨hc, hcs⟩

theorem printable_number (n : Nat) : Printable (Nat.toDigits 10 n) := by
  intro c hc
  have hdigit := isDigit_of_mem hc
  simp only [Char.isDigit, Bool.and_eq_true, decide_eq_true_eq, ge_iff_le, UInt32.le_iff_toNat_le] at hdigit
  exact Nat.le_trans (by decide) hdigit.1

theorem printable_escapeChar (c : Char) : Printable (escapeChar c) := by
  have hletters : ∀ p ∈ letters, 0x20 ≤ p.2.toNat := by decide
  rcases escapeChar_cases c with ⟨h, -, -, hc⟩ | ⟨l, hl, h⟩ | ⟨hlow, h⟩ <;> rw [h]
  case inl => exact .cons hc (fun _ hd => by cases hd)
  case inr.inl => exact .cons (by decide) (.cons (hletters _ hl) fun _ hd => by cases hd)
  case inr.inr =>
    have hread := readDigits_padLeft (Nat.lt_trans hlow (by decide)) 4
    refine .cons (by decide) (.cons (by decide) fun d hd => ?_)
    exact Nat.le_trans (by decide) (le_toNat_of_digit? (isSome_digit?_of_readDigits hread d hd))

theorem printable_quote (s : String) : Printable (quote s) := by
  refine .cons (by decide) (.append (fun c hc => ?_) (by decide))
  obtain ⟨d, -, hd⟩ := List.mem_flatMap.mp hc
  exact printable_escapeChar d c hd

theorem printable_sequence {α : Type} {write : α → List Char} {xs : List α} (h : ∀ x ∈ xs, Printable (write x)) :
    Printable (sequence write xs) := by
  intro c hc
  rcases mem_sequence hc with rfl | ⟨x, hx, hc⟩
  · decide
  · exact h x hx c hc

/-- Whatever texts a value has, its compact form has no line feed, nor any other control character. -/
theorem printable_compact (j : Json) : Printable (compact j) := by
  induction j using Json.induction with
  | null => decide
  | number n => exact printable_number n
  | text s => exact printable_quote s
  | array js ih =>
    rw [compact, compactItems_eq]
    exact .cons (by decide) (.append (printable_sequence ih) (by decide))
  | object ms ih =>
    rw [compact, compactMembers_eq]
    refine .cons (by decide) (.append (printable_sequence fun m hm => ?_) (by decide))
    exact (printable_quote m.1).append (.cons (by decide) (ih m hm))

end Lines

end Lifter.Json
