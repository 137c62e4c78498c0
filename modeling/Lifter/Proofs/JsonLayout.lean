/-
  Lifter.Proofs.JsonLayout — the pretty form of a JSON value is its compact form, laid out.

  White space outside of quotes is no part of what a text says. Without it the pretty
  form is the compact form, at any depth and whatever follows (`unspaced_prettyAt`):
  inside quotes the reader of escapes goes on undisturbed, outside of them the pretty
  form has nothing more than the gaps behind brackets, commas and colons. So the pretty
  form says which value it is, too (`pretty_inj`).
-/

import Lifter.Proofs.JsonText

namespace Lifter.Json

open Text

/-! ## White space -/

def isSpace (c : Char) : Bool := c ∈ [' ', '\t', '\n', '\r']

mutual

/-- The text without the white space outside of quotes. -/
def unspaced : List Char → List Char
  | [] => []
  | '"' :: cs => '"' :: quoted cs
  | c :: cs => if isSpace c then unspaced cs else c :: unspaced cs

/-- The same from the inside of quotes on: a backslash keeps the next character from ending them. -/
def quoted : List Char → List Char
  | [] => []
  | '\\' :: c :: cs => '\\' :: c :: quoted cs
  | '"' :: cs => '"' :: unspaced cs
  | c :: cs => c :: quoted cs

end

section Unspaced

variable {cs rest : List Char} {c : Char}

theorem unspaced_cons (hquote : c ≠ '"') (hspace : isSpace c = false) : unspaced (c :: rest) = c :: unspaced rest := by
  rw [unspaced, if_neg (by simp [hspace])]
  exact hquote

theorem quoted_cons (hquote : c ≠ '"') (hbackslash : c ≠ '\\') : quoted (c :: rest) = c :: quoted rest := by
  rw [quoted]
  · intro d ds h
    exact absurd h hbackslash
  · exact hquote

/-- What has neither quotes nor white space stays. -/
theorem unspaced_bare (h : ∀ c ∈ cs, c ≠ '"' ∧ isSpace c = false) : unspaced (cs ++ rest) = cs ++ unspaced rest := by
  induction cs with
  | nil => rfl
  | cons c cs ih =>
    obtain ⟨hquote, hspace⟩ := h c List.mem_cons_self
    rw [List.cons_append, unspaced_cons hquote hspace, ih fun d hd => h d (List.mem_cons_of_mem _ hd)]
    rfl

/-- A gap goes. -/
theorem unspaced_gap (h : ∀ c ∈ cs, isSpace c = true) : unspaced (cs ++ rest) = unspaced rest := by
  induction cs with
  | nil => rfl
  | cons c cs ih =>
    have hspace := h c List.mem_cons_self
    have hquote : c ≠ '"' := by
      intro hc
      rw [hc] at hspace
      exact absurd hspace (by decide)
    rw [List.cons_append, unspaced, if_pos hspace, ih fun d hd => h d (List.mem_cons_of_mem _ hd)]
    exact hquote

theorem unspaced_blank : unspaced (' ' :: rest) = unspaced rest := rfl

/-- In quotes, what can neither end them nor begin an escape stays. -/
theorem quoted_bare (h : ∀ c ∈ cs, c ≠ '"' ∧ c ≠ '\\') : quoted (cs ++ rest) = cs ++ quoted rest := by
  induction cs with
  | nil => rfl
  | cons c cs ih =>
    obtain ⟨hquote, hbackslash⟩ := h c List.mem_cons_self
    rw [List.cons_append, quoted_cons hquote hbackslash, ih fun d hd => h d (List.mem_cons_of_mem _ hd)]
    rfl

theorem isSpace_newline (depth : Nat) : ∀ c ∈ newline depth, isSpace c = true := by
  intro c hc
  rcases List.mem_cons.mp hc with rfl | hc
  · decide
  · rw [List.eq_of_mem_replicate hc]
    decide

end Unspaced

/-! ## Texts and numbers -/

theorem quoted_escapeChar (c : Char) (rest : List Char) : quoted (escapeChar c ++ rest) = escapeChar c ++ quoted rest := by
  rcases escapeChar_cases c with ⟨h, hquote, hbackslash, -⟩ | ⟨l, -, h⟩ | ⟨hlow, h⟩ <;> rw [h]
  case inl => exact quoted_cons hquote hbackslash
  case inr.inl => rfl
  case inr.inr =>
    have hread := readDigits_padLeft (Nat.lt_trans hlow (by decide)) 4
    have hdigits : ∀ d ∈ padLeft 4 '0' (hexDigits c.toNat), d ≠ '"' ∧ d ≠ '\\' := by
      intro d hd
      have hdigit := isSome_digit?_of_readDigits hread d hd
      constructor <;> intro h <;> rw [h] at hdigit <;> exact absurd hdigit (by decide)
    show '\\' :: 'u' :: quoted (padLeft 4 '0' (hexDigits c.toNat) ++ rest) = _
    rw [quoted_bare hdigits]
    rfl

theorem quoted_escaped (cs rest : List Char) :
    quoted (cs.flatMap escapeChar ++ '"' :: rest) = cs.flatMap escapeChar ++ '"' :: unspaced rest := by
  induction cs with
  | nil => rfl
  | cons c cs ih => rw [List.flatMap_cons, List.append_assoc, quoted_escapeChar, ih, List.append_assoc]

/-- A text stays as it is, its own white space included. -/
theorem unspaced_quote (s : String) (rest : List Char) : unspaced (quote s ++ rest) = quote s ++ unspaced rest := by
  simp only [quote, List.cons_append, List.append_assoc, List.nil_append]
  rw [unspaced, quoted_escaped]

theorem unspaced_number (n : Nat) (rest : List Char) :
    unspaced (Nat.toDigits 10 n ++ rest) = Nat.toDigits 10 n ++ unspaced rest := by
  refine unspaced_bare fun c hc => ?_
  have hdigit := isDigit_of_mem hc
  refine ⟨?_, decide_eq_false fun hspace => ?_⟩
  · intro h
    rw [h] at hdigit
    exact absurd hdigit (by decide)
  · simp only [List.mem_cons, List.not_mem_nil, or_false] at hspace
    rcases hspace with h | h | h | h <;> rw [h] at hdigit <;> exact absurd hdigit (by decide)

/-! ## Sequences -/

section Sequences

variable {α : Type} {gap : List Char} {write compactly : α → List Char}

/-- Items with a comma and a gap between two of them. -/
def spread (gap : List Char) (write : α → List Char) : List α → List Char
  | [] => []
  | x :: xs => write x ++ xs.flatMap fun y => ',' :: (gap ++ write y)

theorem unspaced_spread (hgap : ∀ c ∈ gap, isSpace c = true) {xs : List α}
    (h : ∀ x ∈ xs, ∀ rest, unspaced (write x ++ rest) = compactly x ++ unspaced rest) (rest : List Char) :
    unspaced (spread gap write xs ++ rest) = sequence compactly xs ++ unspaced rest := by
  have hbehind : ∀ (ys : List α), (∀ y ∈ ys, ∀ rest, unspaced (write y ++ rest) = compactly y ++ unspaced rest) →
      unspaced (ys.flatMap (fun y => ',' :: (gap ++ write y)) ++ rest) =
        ys.flatMap (fun y => ',' :: compactly y) ++ unspaced rest := by
    intro ys
    induction ys with
    | nil => intro _; rfl
    | cons y ys ih =>
      intro hys
      simp only [List.flatMap_cons, List.cons_append, List.append_assoc]
      rw [unspaced_cons (by decide) (by decide), unspaced_gap hgap, hys y List.mem_cons_self,
        ih fun z hz => hys z (List.mem_cons_of_mem _ hz)]
  cases xs with
  | nil => rfl
  | cons x xs =>
    rw [spread, sequence, List.append_assoc, h x List.mem_cons_self,
      hbehind xs fun y hy => h y (List.mem_cons_of_mem _ hy), List.append_assoc]

end Sequences

def prettyMember (depth : Nat) (m : String × Json) : List Char := quote m.1 ++ ':' :: ' ' :: prettyAt depth m.2

theorem prettyItems_eq (depth : Nat) (js : List Json) :
    prettyItems depth js = spread (newline depth) (prettyAt depth) js := by
  induction js with
  | nil => rfl
  | cons j js ih =>
    cases js with
    | nil => simp [prettyItems, spread]
    | cons k ks =>
      rw [prettyItems, ih]
      · simp [spread]
      · simp

theorem prettyMembers_eq (depth : Nat) (ms : List (String × Json)) :
    prettyMembers depth ms = spread (newline depth) (prettyMember depth) ms := by
  induction ms with
  | nil => rfl
  | cons m ms ih =>
    obtain ⟨key, j⟩ := m
    cases ms with
    | nil => simp [prettyMembers, spread, prettyMember]
    | cons m ms =>
      rw [prettyMembers, ih]
      · simp [spread, prettyMember]
      · simp

/-! ## Values -/

/-- Without its white space the pretty form is the compact form, at any depth and whatever follows. -/
theorem unspaced_prettyAt (j : Json) :
    ∀ (depth : Nat) (rest : List Char), unspaced (prettyAt depth j ++ rest) = compact j ++ unspaced rest := by
  induction j using Json.induction with
  | null => intro depth rest; rfl
  | number n => intro depth rest; exact unspaced_number n rest
  | text s => intro depth rest; exact unspaced_quote s rest
  | array js ih =>
    intro depth rest
    cases js with
    | nil => rfl
    | cons j js =>
      simp only [prettyAt, compact, prettyItems_eq, compactItems_eq, List.cons_append, List.append_assoc,
        List.nil_append]
      rw [unspaced_cons (by decide) (by decide), unspaced_gap (isSpace_newline _),
        unspaced_spread (isSpace_newline _) (fun k hk rest => ih k hk (depth + 1) rest),
        unspaced_gap (isSpace_newline _), unspaced_cons (by decide) (by decide)]
  | object ms ih =>
    intro depth rest
    have hmember : ∀ m ∈ ms, ∀ rest,
        unspaced (prettyMember (depth + 1) m ++ rest) = compactMember m ++ unspaced rest := by
      intro m hm rest
      simp only [prettyMember, compactMember, List.cons_append, List.append_assoc]
      rw [unspaced_quote, unspaced_cons (by decide) (by decide), unspaced_blank, ih m hm]
    cases ms with
    | nil => rfl
    | cons m ms =>
      simp only [prettyAt, compact, prettyMembers_eq, compactMembers_eq, List.cons_append, List.append_assoc,
        List.nil_append]
      rw [unspaced_cons (by decide) (by decide), unspaced_gap (isSpace_newline _),
        unspaced_spread (isSpace_newline _) hmember, unspaced_gap (isSpace_newline _),
        unspaced_cons (by decide) (by decide)]

/-- The two forms of a value differ in white space only. -/
theorem unspaced_pretty (j : Json) : unspaced j.pretty = j.compact := by
  have h := unspaced_prettyAt j 0 []
  rwa [List.append_nil, unspaced, List.append_nil] at h

theorem pretty_inj {j k : Json} (h : j.pretty = k.pretty) : j = k := by
  refine compact_inj ?_
  rw [← unspaced_pretty j, h, unspaced_pretty k]

end Lifter.Json
