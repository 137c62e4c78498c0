/-
  Lifter.Proofs.Results — answers that may fail.

  What follows from the success of a computation made of others: of a sequence
  (`bind_eq_ok`), of a check (`unless_eq_ok`), of the same for every member of a list
  (`mapM_eq_ok`), and of a list that is read in order, which keeps whatever one more
  reading keeps (`collect_keeps`, `foldlM_passes`). A failure comes from one of the parts
  (`bind_eq_error`), of a list from the first member that has no answer (`mapM_eq_error`).
  Two sequences that begin alike succeed alike if what follows does
  (`bind_succeeds_congr`). The same for the attributes of an element, which are read in
  these ways.
-/

import Lifter.Specification.Attribute
import Mathlib.Data.List.Forall2
import Mathlib.Data.List.TakeDrop

namespace Lifter.Specification

/-! ## Success -/

theorem bind_eq_ok {ε α β : Type} {x : Except ε α} {f : α → Except ε β} {b : β} :
    x >>= f = .ok b ↔ ∃ a, x = .ok a ∧ f a = .ok b := by
  cases x <;> simp [bind, Except.bind]

theorem exceptBind_eq_ok {ε α β : Type} {x : Except ε α} {f : α → Except ε β} {b : β} :
    x.bind f = .ok b ↔ ∃ a, x = .ok a ∧ f a = .ok b := bind_eq_ok

theorem pure_eq_ok {ε α : Type} {a b : α} : (pure a : Except ε α) = .ok b ↔ a = b := by simp [pure, Except.pure]

theorem map_eq_ok {ε α β : Type} {x : Except ε α} {f : α → β} {b : β} :
    x.map f = .ok b ↔ ∃ a, x = .ok a ∧ f a = b := by
  cases x <;> simp [Except.map]

theorem mapError_eq_ok {ε δ α : Type} {x : Except ε α} {f : ε → δ} {a : α} : x.mapError f = .ok a ↔ x = .ok a := by
  cases x <;> simp [Except.mapError]

/-- A check that refuses has to be passed. -/
theorem unless_eq_ok {ε α β : Type} {c : Prop} [Decidable c] {err : ε} {f : α → Except ε β} {x : Except ε β}
    {b : β} : (if c then .error err >>= f else x) = .ok b ↔ ¬c ∧ x = .ok b := by
  by_cases h : c <;> simp [h, bind, Except.bind]

theorem mapM_eq_ok {ε α β : Type} {f : α → Except ε β} {as : List α} {bs : List β} :
    as.mapM f = .ok bs ↔ List.Forall₂ (fun a b => f a = .ok b) as bs := by
  induction as generalizing bs with
  | nil => cases bs <;> simp [pure, Except.pure]
  | cons a as ih =>
    simp only [List.mapM_cons, bind_eq_ok, pure_eq_ok, ih, List.forall₂_cons_left_iff]
    constructor
    · rintro ⟨b, hb, bs', hbs, rfl⟩; exact ⟨b, bs', hb, hbs, rfl⟩
    · rintro ⟨b, bs', hb, hbs, rfl⟩; exact ⟨b, hb, bs', hbs, rfl⟩

/-- What a list of answers has in common, if every answer has it. -/
theorem forall_of_mapM {ε α β : Type} {f : α → Except ε β} {P : β → Prop} {as : List α} {bs : List β}
    (h : as.mapM f = .ok bs) (hP : ∀ a ∈ as, ∀ b, f a = .ok b → P b) : ∀ b ∈ bs, P b := by
  rw [mapM_eq_ok] at h
  induction h with
  | nil => intro b hb; cases hb
  | cons hab _ ih =>
    intro b hb
    rcases List.mem_cons.mp hb with rfl | hb
    · exact hP _ List.mem_cons_self _ hab
    · exact ih (fun a ha => hP a (List.mem_cons_of_mem _ ha)) b hb

/-- Lists of answers put one behind the other. -/
theorem forall₂_comp {α β γ : Type} {R : α → β → Prop} {S : β → γ → Prop} {as : List α} {bs : List β} {cs : List γ}
    (h : List.Forall₂ R as bs) : List.Forall₂ S bs cs → List.Forall₂ (fun a c => ∃ b, R a b ∧ S b c) as cs := by
  induction h generalizing cs with
  | nil => rintro ⟨⟩; exact .nil
  | cons hab _ ih =>
    intro hs
    cases hs with
    | cons hbc hs => exact .cons ⟨_, hab, hbc⟩ (ih hs)

/-- Every answer is that to a question. -/
theorem exists_of_forall₂ {α β : Type} {R : α → β → Prop} {as : List α} {bs : List β} (h : List.Forall₂ R as bs) :
    ∀ b ∈ bs, ∃ a ∈ as, R a b := by
  induction h with
  | nil => intro b hb; cases hb
  | cons hab _ ih =>
    intro b hb
    rcases List.mem_cons.mp hb with rfl | hb
    · exact ⟨_, List.mem_cons_self, hab⟩
    · obtain ⟨a, ha, hr⟩ := ih b hb
      exact ⟨a, List.mem_cons_of_mem _ ha, hr⟩

theorem forall₂_toList {α β : Type} {R : α → β → Prop} {o : Option α} {p : Option β} (h : Option.Rel R o p) :
    List.Forall₂ R o.toList p.toList := by
  cases h with
  | none => exact .nil
  | some hab => exact .cons hab .nil

/-- In lists of one length every member is paired. -/
theorem exists_mem_zip {α β : Type} {as : List α} {bs : List β} (h : as.length = bs.length) {a : α} (ha : a ∈ as) :
    ∃ b, (a, b) ∈ as.zip bs := by
  rw [← List.map_fst_zip (Nat.le_of_eq h)] at ha
  obtain ⟨p, hp, rfl⟩ := List.mem_map.mp ha
  exact ⟨p.2, hp⟩

/-- With a list that is cut short, no other members are paired. -/
theorem mem_zip_of_initial {α β : Type} {as : List α} {bs cs : List β} (h : bs <+: cs) {p : α × β}
    (hp : p ∈ as.zip bs) : p ∈ as.zip cs := by
  obtain ⟨k, hk⟩ := List.getElem?_of_mem hp
  rw [List.getElem?_zip_eq_some] at hk
  have hcs : cs[k]? = some p.2 := by
    obtain ⟨rest, rfl⟩ := h
    rw [List.getElem?_append_left (List.getElem?_eq_some_iff.mp hk.2).1]
    exact hk.2
  exact List.mem_of_getElem? (List.getElem?_zip_eq_some.mpr ⟨hk.1, hcs⟩)

/-- What is at a position of a list with one more member at the end. -/
theorem getElem?_append_singleton {α : Type} {as : List α} {a b : α} {i : Nat} :
    (as ++ [a])[i]? = some b ↔ as[i]? = some b ∨ (i = as.length ∧ a = b) := by
  rcases Nat.lt_trichotomy i as.length with hi | rfl | hi
  · rw [List.getElem?_append_left hi]
    simp [Nat.ne_of_lt hi]
  · simp
  · rw [List.getElem?_eq_none (by simp; omega), List.getElem?_eq_none (Nat.le_of_lt hi)]
    simp [Nat.ne_of_gt hi]

theorem collect_keeps {α : Type} {read : List α → Element → Result α} {P : List α → Prop}
    (step : ∀ done e a, P done → read done e = .ok a → P (done ++ [a])) {es : List Element} :
    ∀ {done all : List α}, P done → collect read done es = .ok all → P all := by
  induction es with
  | nil => intro done all hd h; cases h; exact hd
  | cons e es ih =>
    intro done all hd h
    simp only [collect] at h
    split at h
    · cases h
    · rename_i a ha
      exact ih (step done e a hd ha) h

/-- In a list that is read in order there is an answer for every element. -/
theorem collect_forall₂ {α : Type} {read : List α → Element → Result α} {es : List Element} :
    ∀ {done all : List α}, collect read done es = .ok all →
      ∃ news, all = done ++ news ∧ List.Forall₂ (fun e a => ∃ before, read before e = .ok a) es news := by
  induction es with
  | nil =>
    intro done all h
    cases h
    exact ⟨[], (List.append_nil _).symm, .nil⟩
  | cons e es ih =>
    intro done all h
    simp only [collect] at h
    split at h
    · cases h
    · rename_i a ha
      obtain ⟨news, rfl, hnews⟩ := ih h
      exact ⟨a :: news, List.append_assoc done [a] news, .cons ⟨done, ha⟩ hnews⟩

/-- What holds of the members passed and of the answer so far holds of the whole list in the end. -/
theorem foldlM_passes {ε α β : Type} {f : β → α → Except ε β} {P : List α → β → Prop}
    (step : ∀ passed b a c, P passed b → f b a = .ok c → P (passed ++ [a]) c) {as : List α} {b c : β} (hb : P [] b)
    (h : as.foldlM f b = .ok c) : P as c := by
  have hrest : ∀ (rest passed : List α) (b c : β), P passed b → rest.foldlM f b = .ok c → P (passed ++ rest) c := by
    intro rest
    induction rest with
    | nil =>
      intro passed b c hb h
      cases h
      rwa [List.append_nil]
    | cons a rest ih =>
      intro passed b c hb h
      rw [List.foldlM_cons, bind_eq_ok] at h
      obtain ⟨d, hd, h⟩ := h
      have hmore := ih (passed ++ [a]) d c (step passed b a d hb hd) h
      rwa [List.append_assoc, List.singleton_append] at hmore
  exact hrest as [] b c hb h

/-- What one step keeps, all of them keep. -/
theorem foldlM_keeps {ε α β : Type} {f : β → α → Except ε β} {P : β → Prop}
    (step : ∀ b a c, P b → f b a = .ok c → P c) {as : List α} {b c : β} (hb : P b) (h : as.foldlM f b = .ok c) : P c :=
  foldlM_passes (P := fun _ b => P b) (fun _ => step) hb h

/-! ## Failure -/

theorem bind_eq_error {ε α β : Type} {x : Except ε α} {f : α → Except ε β} {err : ε} :
    x >>= f = .error err ↔ x = .error err ∨ ∃ a, x = .ok a ∧ f a = .error err := by
  cases x <;> simp [bind, Except.bind]

/-- A check that refuses comes before what follows it. -/
theorem unless_eq_error {ε α β : Type} {c : Prop} [Decidable c] {err other : ε} {f : α → Except ε β} {x : Except ε β} :
    (if c then .error other >>= f else x) = .error err ↔ (c ∧ err = other) ∨ (¬c ∧ x = .error err) := by
  by_cases h : c <;> simp [h, bind, Except.bind, eq_comm]

theorem map_eq_error {ε α β : Type} {x : Except ε α} {f : α → β} {err : ε} :
    x.map f = .error err ↔ x = .error err := by
  cases x <;> simp [Except.map]

/-- A list of answers fails with the first member that does. -/
theorem mapM_eq_error {ε α β : Type} {f : α → Except ε β} {as : List α} {err : ε} :
    as.mapM f = .error err ↔ ∃ before a after, as = before ++ a :: after ∧ (∀ b ∈ before, ∀ e, f b ≠ .error e) ∧
      f a = .error err := by
  induction as with
  | nil => simp [pure, Except.pure]
  | cons a as ih =>
    rw [List.mapM_cons, bind_eq_error]
    constructor
    · intro h
      cases h with
      | inl ha => exact ⟨[], a, as, rfl, fun b hb => (by cases hb), ha⟩
      | inr hrest =>
        obtain ⟨b, hb, hrest⟩ := hrest
        have hlater : as.mapM f = .error err := by
          cases hrest' : as.mapM f with
          | error e => rwa [hrest'] at hrest
          | ok bs =>
            rw [hrest'] at hrest
            cases hrest
        obtain ⟨before, c, after, rfl, hbefore, hc⟩ := ih.mp hlater
        refine ⟨a :: before, c, after, rfl, ?_, hc⟩
        intro x hx e
        rcases List.mem_cons.mp hx with rfl | hx
        · simp [hb]
        · exact hbefore x hx e
    · rintro ⟨before, c, after, hsplit, hbefore, hc⟩
      cases before with
      | nil =>
        cases hsplit
        exact .inl hc
      | cons x before =>
        cases hsplit
        cases hx : f a with
        | error e => exact absurd hx (hbefore a List.mem_cons_self e)
        | ok b =>
          refine .inr ⟨b, rfl, ?_⟩
          have hlater := ih.mpr ⟨before, c, after, rfl, fun y hy => hbefore y (List.mem_cons_of_mem _ hy), hc⟩
          rw [hlater]
          rfl

/-- Only the failures of the members count. -/
theorem mapM_eq_error_congr {ε α β γ : Type} {f : α → Except ε β} {g : α → Except ε γ} {as : List α} {err : ε}
    (h : ∀ a e, f a = .error e ↔ g a = .error e) : as.mapM f = .error err ↔ as.mapM g = .error err := by
  simp only [mapM_eq_error, ne_eq, h]

/-- There is a list of answers if no member fails. -/
theorem mapM_succeeds_iff {ε α β : Type} {f : α → Except ε β} {as : List α} :
    (∃ bs, as.mapM f = .ok bs) ↔ ∀ a ∈ as, ∀ e, f a ≠ .error e := by
  constructor
  · intro h a ha e he
    obtain ⟨bs, hbs⟩ := h
    obtain ⟨b, -, hb⟩ := exists_of_forall₂ (mapM_eq_ok.mp hbs).flip a ha
    rw [he] at hb
    cases hb
  · intro h
    cases hbs : as.mapM f with
    | ok bs => exact ⟨bs, rfl⟩
    | error e =>
      obtain ⟨before, a, after, rfl, -, ha⟩ := mapM_eq_error.mp hbs
      exact absurd ha (h a (by simp) e)

theorem optionMapM_eq_ok {ε α β : Type} {f : α → Except ε β} {o : Option α} {p : Option β} (h : o.mapM f = .ok p) :
    p.isSome = o.isSome := by
  cases o with
  | none => cases h; rfl
  | some a =>
    obtain ⟨b, -, rfl⟩ := map_eq_ok.mp h
    rfl

theorem optionMapM_eq_some {ε α β : Type} {f : α → Except ε β} {o : Option α} {b : β} (h : o.mapM f = .ok (some b)) :
    ∃ a, o = some a ∧ f a = .ok b := by
  cases o with
  | none => cases h
  | some a =>
    obtain ⟨b', hb', heq⟩ := map_eq_ok.mp h
    cases heq
    exact ⟨a, rfl, hb'⟩

/-- The answer, worked on further, is to the question. -/
theorem optionMapM_rel {ε α β γ : Type} {f : α → Except ε β} (g : β → γ) {o : Option α} {p : Option β}
    (h : o.mapM f = .ok p) : Option.Rel (fun a c => (f a).map g = .ok c) o (p.map g) := by
  cases o with
  | none => cases h; exact .none
  | some a =>
    obtain ⟨b, hb, rfl⟩ := map_eq_ok.mp h
    exact .some (map_eq_ok.mpr ⟨b, hb, rfl⟩)

/-! ## Succeeding alike -/

/-- There is a list of answers if each member has one. -/
theorem exists_mapM_iff {ε α β : Type} {f : α → Except ε β} {as : List α} :
    (∃ bs, as.mapM f = .ok bs) ↔ ∀ a ∈ as, ∃ b, f a = .ok b := by
  have hok : ∀ x : Except ε β, (∀ e, x ≠ .error e) ↔ ∃ b, x = .ok b := by
    intro x
    cases x <;> simp
  simp only [mapM_succeeds_iff, hok]

/-- A sequence succeeds like another one with the same beginning, if what follows does. -/
theorem bind_succeeds_congr {ε α β : Type} {x : Except ε α} {f g : α → Except ε β}
    (h : ∀ a, (∃ b, f a = .ok b) ↔ ∃ b, g a = .ok b) : (∃ b, (x >>= f) = .ok b) ↔ ∃ b, (x >>= g) = .ok b := by
  cases x with
  | error err => exact Iff.rfl
  | ok a => exact h a

theorem unless_succeeds_congr {ε α β : Type} {c : Prop} [Decidable c] {err : ε} {f g : α → Except ε β}
    {x y : Except ε β} (h : (∃ b, x = .ok b) ↔ ∃ b, y = .ok b) :
    (∃ b, (if c then .error err >>= f else x) = .ok b) ↔ ∃ b, (if c then .error err >>= g else y) = .ok b := by
  simp only [unless_eq_ok, exists_and_left, h]

theorem bind_pure_succeeds {ε α β : Type} {x : Except ε α} {f : α → β} :
    (∃ b, (x >>= fun a => pure (f a)) = .ok b) ↔ ∃ a, x = .ok a := by
  simp only [bind_eq_ok, pure_eq_ok, exists_comm (α := β), exists_and_left, exists_eq', and_true]

/-! ## Attributes -/

theorem attr_eq_ok {e : Element} {name text : String} : attr e name = .ok text ↔ e.attribute? name = some text := by
  unfold attr
  split <;> simp_all

theorem inRange_eq_ok {e : Element} {name : String} {low high : Nat} {n : UInt64} {m : Nat} :
    inRange e name low high n = .ok m ↔ n = UInt64.ofNat m ∧ n.toNat = m ∧ low ≤ m ∧ m ≤ high := by
  unfold inRange invalid
  split <;> rename_i h
  · constructor
    · rintro ⟨⟩; exact ⟨by simp, rfl, h⟩
    · rintro ⟨-, rfl, -⟩; rfl
  · simp only [reduceCtorEq, false_iff]
    rintro ⟨-, rfl, hm⟩
    exact h hm

/-- A number with bounds is the number itself, between them. -/
theorem boundedNumber_eq_ok {e : Element} {name : String} {low high m : Nat} :
    (number e name).bind (inRange e name low high) = .ok m ↔
      ∃ n, number e name = .ok n ∧ n = UInt64.ofNat m ∧ n.toNat = m ∧ low ≤ m ∧ m ≤ high := by
  simp only [exceptBind_eq_ok, inRange_eq_ok]

theorem child_eq_ok {e c : Element} {name : String} : child e name = .ok c ↔ e.child? name = some c := by
  unfold child
  split <;> simp_all

/-- What comes before the first character of this kind stays in front of the cut. -/
theorem span_ne_append {c : Char} {before : List Char} (h : c ∉ before) (behind : List Char) :
    (before ++ behind).span (· != c) = (before ++ behind.takeWhile (· != c), behind.dropWhile (· != c)) := by
  have hall : ∀ d ∈ before, (d != c) = true := by
    intro d hd
    simp only [bne_iff_ne, ne_eq]
    intro heq
    exact h (heq ▸ hd)
  rw [List.span_eq_takeWhile_dropWhile, List.takeWhile_append_of_pos hall, List.dropWhile_append_of_pos hall]

theorem span_append {c : Char} {before : List Char} (h : c ∉ before) (behind : List Char) :
    (before ++ c :: behind).span (· != c) = (before, c :: behind) := by
  rw [span_ne_append h]
  simp

theorem span_of_not_mem {c : Char} {cs : List Char} (h : c ∉ cs) : cs.span (· != c) = (cs, []) := by
  simpa using span_ne_append h []

/-- A declaration that is found by name has that name. -/
theorem find?_name {α : Type} {as : List α} {nameOf : α → String} {name : String} {a : α}
    (h : as.find? (nameOf · == name) = some a) : a ∈ as ∧ nameOf a = name :=
  ⟨List.mem_of_find?_eq_some h, by simpa using List.find?_some h⟩

end Lifter.Specification
