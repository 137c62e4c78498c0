/-
  Lifter.Proofs.Segments — what a segmented image answers a request with.

  An address may lie in several segments, in one or in none, and the order of the list
  is any. A request is answered if each of its addresses is in a segment, and then each
  byte is one that a segment stores there (`fill_mapped`). The answer is made in passes:
  each takes what the first segment that contains the address has from there on, so it
  takes at least one byte, and there are at most as many passes as bytes (`Fills`).

  Which segment supplies a byte depends on where its pass began. So a request and its two
  parts are answered alike only where the segments at an address agree on its byte
  (`fill_parts`); where they do not, the second part may begin in another segment than
  the whole request has reached (`crossed_parts`).
-/

import Lifter.Image.Segmented
import Lifter.Proofs.Results
import Mathlib.Data.List.Pairwise

namespace Lifter

open Specification

/-! ## Segments -/

namespace Segment

variable {s : Segment} {a : UInt64} {b : UInt8}

/-- The byte at `a`, if the segment contains it. -/
def byteAt? (s : Segment) (a : UInt64) : Option UInt8 := s.contents[(a - s.address).toNat]?

/-- The segment contains `a`, and its byte there is `b`. -/
def Stores (s : Segment) (a : UInt64) (b : UInt8) : Prop := s.contains a = true ∧ s.byteAt? a = some b
deriving Decidable

theorem length_contents (s : Segment) : s.contents.length = s.size := by
  rw [contents, List.length_append, List.length_replicate, size]

theorem contains_iff :
    s.contains a = true ↔ s.address.toNat ≤ a.toNat ∧ (a - s.address).toNat < s.size := by
  rw [contains, Bool.and_eq_true, decide_eq_true_iff, decide_eq_true_iff, UInt64.le_iff_toNat_le]

theorem toNat_sub_address (h : s.address.toNat ≤ a.toNat) : (a - s.address).toNat = a.toNat - s.address.toNat :=
  UInt64.toNat_sub_of_le _ _ (UInt64.le_iff_toNat_le.mpr h)

theorem exists_stores (h : s.contains a = true) : ∃ b, s.Stores a b := by
  have hlt := (contains_iff.mp h).2
  rw [← length_contents] at hlt
  exact ⟨_, h, List.getElem?_eq_getElem hlt⟩

/-- A byte further on is in the segment too, as long as the segment and the addresses go on. -/
theorem contains_next (h : s.contains a = true) (hsize : (a - s.address).toNat + 1 < s.size)
    (hwrap : a.toNat + 1 < UInt64.size) :
    s.contains (a + 1) = true ∧ (a + 1 - s.address).toNat = (a - s.address).toNat + 1 := by
  obtain ⟨hle, hlt⟩ := contains_iff.mp h
  have hnext : (a + 1).toNat = a.toNat + 1 := by
    rw [UInt64.toNat_add, UInt64.toNat_one, Nat.mod_eq_of_lt hwrap]
  have hsub := toNat_sub_address hle
  have hsub' : (a + 1 - s.address).toNat = (a + 1).toNat - s.address.toNat := toNat_sub_address (by omega)
  rw [contains_iff]
  omega

/-- No address is in both segments. -/
def Apart (s t : Segment) : Prop := ∀ a, s.contains a = true → ¬ t.contains a = true

instance : Std.Symm Apart where
  symm _ _ h a ht hs := h a hs ht

end Segment

namespace SegmentedImage

variable {image : SegmentedImage}

/-- Some segment contains `a`. -/
def Maps (image : SegmentedImage) (a : UInt64) : Prop := ∃ s ∈ image.segments, s.contains a = true
deriving Decidable

/-- Some segment has the byte `b` at `a`. -/
def Stores (image : SegmentedImage) (a : UInt64) (b : UInt8) : Prop := ∃ s ∈ image.segments, s.Stores a b
deriving Decidable

/-- The segments that contain `a` have one byte there. -/
def Agrees (image : SegmentedImage) (a : UInt64) : Prop :=
  ∀ s ∈ image.segments, ∀ t ∈ image.segments, s.contains a = true → t.contains a = true → s.byteAt? a = t.byteAt? a
deriving Decidable

/-- No address is in two segments of the list. -/
def Disjoint (image : SegmentedImage) : Prop := image.segments.Pairwise Segment.Apart

/-- No segment goes on past the last address. -/
def Regular (image : SegmentedImage) : Prop := ∀ s ∈ image.segments, s.address.toNat + s.size ≤ UInt64.size
deriving Decidable

theorem Stores.maps {a : UInt64} {b : UInt8} (h : image.Stores a b) : image.Maps a := by
  obtain ⟨s, hs, hcontains, -⟩ := h
  exact ⟨s, hs, hcontains⟩

/-- In disjoint segments one at most contains an address. -/
theorem Disjoint.agrees (h : image.Disjoint) (a : UInt64) : image.Agrees a := by
  intro s hs t ht hsa hta
  have hsame : s = t := by
    by_contra hne
    exact h.forall hs ht hne a hsa hta
  rw [hsame]

theorem Agrees.stores {a : UInt64} {b : UInt8} (h : image.Agrees a) (hb : image.Stores a b) {s : Segment}
    (hs : s ∈ image.segments) (hcontains : s.contains a = true) : s.Stores a b := by
  obtain ⟨t, ht, hcontains', htb⟩ := hb
  exact ⟨hcontains, (h s hs t ht hcontains hcontains').trans htb⟩

theorem Agrees.eq {a : UInt64} {b c : UInt8} (h : image.Agrees a) (hb : image.Stores a b) (hc : image.Stores a c) :
    b = c := by
  obtain ⟨s, hs, hsc⟩ := hc
  exact Option.some.inj ((h.stores hb hs hsc.1).2.symm.trans hsc.2)

/-! ## One byte -/

/-- If the segment that supplied the byte before goes on, `offset` is the position reached in it. -/
def InStep (image : SegmentedImage) (current : Option (Segment × Nat)) (offset : UInt64) : Prop :=
  ∀ s i, current = some (s, i) → s ∈ image.segments ∧
    (i < s.size → s.contains offset = true ∧ (offset - s.address).toNat = i)

theorem inStep_none (offset : UInt64) : image.InStep none offset := fun _ _ h => by cases h

theorem segmentAt?_eq_some {offset : UInt64} {s : Segment} (h : image.segmentAt? offset = some s) :
    s ∈ image.segments ∧ s.contains offset = true :=
  ⟨List.mem_of_find?_eq_some h, by simpa using List.find?_some h⟩

theorem segmentAt?_eq_none {offset : UInt64} (h : image.segmentAt? offset = none) : ¬ image.Maps offset := by
  rintro ⟨s, hs, hcontains⟩
  exact absurd hcontains (List.find?_eq_none.mp h s hs)

theorem byte?_of_stores {s : Segment} {offset : UInt64} {b : UInt8} (h : s.Stores offset b) :
    s.byte? (offset - s.address).toNat = some b := by
  rw [Segment.byte?_eq]
  exact h.2

/-- Without a segment to go on in, the first one that contains the address supplies its byte. -/
theorem supply?_none_of_segmentAt? {offset : UInt64} {s : Segment} (hs : image.segmentAt? offset = some s) {b : UInt8}
    (hb : s.Stores offset b) : image.supply? none offset = some (b, s, (offset - s.address).toNat) := by
  simp only [supply?, Option.bind_none, Option.none_or, hs, Option.bind_some, byte?_of_stores hb, Option.map_some]

/-- A segment supplies bytes until it ends. -/
theorem supply?_of_byte? {s : Segment} {i : Nat} {b : UInt8} (h : s.byte? i = some b) (offset : UInt64) :
    image.supply? (some (s, i)) offset = some (b, s, i) := by
  simp only [supply?, Option.bind_some, h, Option.map_some, Option.some_or]

theorem supply?_of_ended {s : Segment} {i : Nat} (h : s.byte? i = none) (offset : UInt64) :
    image.supply? (some (s, i)) offset = image.supply? none offset := by
  simp only [supply?, Option.bind_some, h, Option.map_none, Option.bind_none]

/-- A byte is supplied by a segment that stores it there, and only where there is none it is missing. -/
theorem supply?_cases {current : Option (Segment × Nat)} {offset : UInt64} (h : image.InStep current offset) :
    (∃ s ∈ image.segments, ∃ b, s.Stores offset b ∧
      image.supply? current offset = some (b, s, (offset - s.address).toNat)) ∨
    ¬ image.Maps offset ∧ image.supply? current offset = none := by
  have hfresh : (∃ s ∈ image.segments, ∃ b, s.Stores offset b ∧
      image.supply? none offset = some (b, s, (offset - s.address).toNat)) ∨
      ¬ image.Maps offset ∧ image.supply? none offset = none := by
    cases hs : image.segmentAt? offset with
    | none =>
      refine .inr ⟨segmentAt?_eq_none hs, ?_⟩
      simp only [supply?, Option.bind_none, Option.none_or, hs]
    | some s =>
      obtain ⟨hmem, hcontains⟩ := segmentAt?_eq_some hs
      obtain ⟨b, hb⟩ := Segment.exists_stores hcontains
      exact .inl ⟨s, hmem, b, hb, supply?_none_of_segmentAt? hs hb⟩
  match current, h with
  | none, _ => exact hfresh
  | some (s, i), h =>
    obtain ⟨hmem, hstep⟩ := h s i rfl
    cases hb : s.byte? i with
    | none => rwa [supply?_of_ended hb]
    | some b =>
      have hi : i < s.size := by
        rw [Segment.byte?_eq] at hb
        rw [← Segment.length_contents]
        exact (List.getElem?_eq_some_iff.mp hb).1
      obtain ⟨hcontains, rfl⟩ := hstep hi
      refine .inl ⟨s, hmem, b, ⟨hcontains, ?_⟩, supply?_of_byte? hb offset⟩
      rwa [Segment.byteAt?, ← Segment.byte?_eq]

/-- Behind a byte that a segment supplied, the next position in it is the next address, if there is one. -/
theorem inStep_next {s : Segment} {offset : UInt64} {b : UInt8} (hs : s ∈ image.segments) (hb : s.Stores offset b)
    (hwrap : s.address.toNat + s.size ≤ UInt64.size ∨ offset.toNat + 1 < UInt64.size) :
    image.InStep (some (s, (offset - s.address).toNat + 1)) (offset + 1) := by
  rintro s i ⟨⟩
  refine ⟨hs, fun hi => Segment.contains_next hb.1 hi ?_⟩
  have hle := (Segment.contains_iff.mp hb.1).1
  rw [Segment.toNat_sub_address hle] at hi
  omega

/-! ## Many bytes -/

/-- The bytes of an answer, without their number. -/
def answer? (image : SegmentedImage) (current : Option (Segment × Nat)) (offset : UInt64) (n : Nat) :
    Option (List UInt8) :=
  (image.gather? current offset n).map (·.val)

@[simp] theorem answer?_zero (current : Option (Segment × Nat)) (offset : UInt64) :
    image.answer? current offset 0 = some [] := rfl

theorem answer?_of_supply? {current : Option (Segment × Nat)} {offset : UInt64} {b : UInt8} {s : Segment} {i : Nat}
    (h : image.supply? current offset = some (b, s, i)) (n : Nat) :
    image.answer? current offset (n + 1) = (image.answer? (some (s, i + 1)) (offset + 1) n).map (b :: ·) := by
  rw [answer?, gather?, h]
  simp only [answer?, Option.map_map, Function.comp_def]

theorem answer?_of_missing {current : Option (Segment × Nat)} {offset : UInt64}
    (h : image.supply? current offset = none) (n : Nat) : image.answer? current offset (n + 1) = none := by
  rw [answer?, gather?, h, Option.map_none]

/-- An answer depends on the segment before only by the byte that it supplies. -/
theorem answer?_congr {current other : Option (Segment × Nat)} {offset : UInt64}
    (h : image.supply? current offset = image.supply? other offset) (n : Nat) :
    image.answer? current offset n = image.answer? other offset n := by
  cases n with
  | zero => rfl
  | succ n => rw [answer?, answer?, gather?, gather?, h]

theorem length_answer? {current : Option (Segment × Nat)} {offset : UInt64} {n : Nat} {bytes : List UInt8}
    (h : image.answer? current offset n = some bytes) : bytes.length = n := by
  obtain ⟨gathered, -, rfl⟩ := Option.map_eq_some_iff.mp h
  exact gathered.property

/-- The addresses of a request do not wrap inside a segment. -/
def Unwrapped (image : SegmentedImage) (offset : UInt64) (n : Nat) : Prop :=
  image.Regular ∨ offset.toNat + n ≤ UInt64.size

theorem Unwrapped.next {offset : UInt64} {n : Nat} (h : image.Unwrapped offset (n + 1)) :
    image.Unwrapped (offset + 1) n := by
  refine h.imp_right fun hle => ?_
  have hmod := Nat.mod_le (offset.toNat + 1) UInt64.size
  rw [UInt64.toNat_add, UInt64.toNat_one]
  omega

theorem add_ofNat_succ (offset : UInt64) (i : Nat) : offset + 1 + UInt64.ofNat i = offset + UInt64.ofNat (i + 1) := by
  rw [UInt64.add_assoc, Nat.add_comm i 1, UInt64.ofNat_add]
  rfl

/-- Every byte of an answer is one that a segment stores at its address; if there is no answer, an address is in
    no segment. -/
theorem answer?_spec {n : Nat} :
    ∀ {current : Option (Segment × Nat)} {offset : UInt64}, image.Unwrapped offset n →
      (0 < n → image.InStep current offset) →
      (∀ bytes, image.answer? current offset n = some bytes →
        ∀ i < n, ∃ b, bytes[i]? = some b ∧ image.Stores (offset + UInt64.ofNat i) b) ∧
      (image.answer? current offset n = none → ∃ i < n, ¬ image.Maps (offset + UInt64.ofNat i)) := by
  induction n with
  | zero =>
    intro current offset _ _
    exact ⟨fun bytes _ i hi => absurd hi (Nat.not_lt_zero i), fun h => by cases h⟩
  | succ n ih =>
    intro current offset hwrap hstep
    rcases supply?_cases (hstep (Nat.succ_pos n)) with ⟨s, hs, b, hb, hsupply⟩ | ⟨hmaps, hsupply⟩
    · have hnext : 0 < n → image.InStep (some (s, (offset - s.address).toNat + 1)) (offset + 1) := by
        intro hn
        refine inStep_next hs hb ?_
        exact hwrap.imp (fun hregular => hregular s hs) fun hle => by omega
      obtain ⟨hsome, hnone⟩ := ih hwrap.next hnext
      rw [answer?_of_supply? hsupply]
      constructor
      · intro bytes hbytes i hi
        obtain ⟨rest, hrest, rfl⟩ := Option.map_eq_some_iff.mp hbytes
        cases i with
        | zero => exact ⟨b, rfl, s, hs, by simpa using hb⟩
        | succ i =>
          obtain ⟨c, hc, hstores⟩ := hsome rest hrest i (by omega)
          exact ⟨c, hc, add_ofNat_succ offset i ▸ hstores⟩
      · intro hanswer
        obtain ⟨i, hi, hmaps⟩ := hnone (Option.map_eq_none_iff.mp hanswer)
        exact ⟨i + 1, by omega, add_ofNat_succ offset i ▸ hmaps⟩
    · rw [answer?_of_missing hsupply]
      exact ⟨fun bytes h => (by cases h), fun _ => ⟨0, Nat.succ_pos n, by simpa using hmaps⟩⟩

section Answered

variable {offset : UInt64} {n : Nat}

theorem stores_of_answer? (h : image.Unwrapped offset n) {bytes : List UInt8}
    (hbytes : image.answer? none offset n = some bytes) {i : Nat} (hi : i < n) :
    ∃ b, bytes[i]? = some b ∧ image.Stores (offset + UInt64.ofNat i) b :=
  (answer?_spec h fun _ => inStep_none offset).1 bytes hbytes i hi

theorem answered_iff (h : image.Unwrapped offset n) :
    (∃ bytes, image.answer? none offset n = some bytes) ↔ ∀ i < n, image.Maps (offset + UInt64.ofNat i) := by
  constructor
  · rintro ⟨bytes, hbytes⟩ i hi
    obtain ⟨b, -, hb⟩ := stores_of_answer? h hbytes hi
    exact hb.maps
  · intro hmaps
    cases hanswer : image.answer? none offset n with
    | some bytes => exact ⟨bytes, rfl⟩
    | none =>
      obtain ⟨i, hi, hnot⟩ := (answer?_spec h fun _ => inStep_none offset).2 hanswer
      exact absurd (hmaps i hi) hnot

end Answered

/-- What is answered first does not depend on how much follows. -/
theorem answer?_take {n m : Nat} :
    ∀ {current : Option (Segment × Nat)} {offset : UInt64} {bytes : List UInt8},
      image.answer? current offset (n + m) = some bytes → image.answer? current offset n = some (bytes.take n) := by
  induction n with
  | zero =>
    intro current offset bytes _
    rfl
  | succ n ih =>
    intro current offset bytes h
    rw [Nat.succ_add] at h
    cases hsupply : image.supply? current offset with
    | none =>
      rw [answer?_of_missing hsupply] at h
      cases h
    | some supplied =>
      obtain ⟨b, s, i⟩ := supplied
      rw [answer?_of_supply? hsupply] at h ⊢
      obtain ⟨rest, hrest, rfl⟩ := Option.map_eq_some_iff.mp h
      rw [ih hrest, Option.map_some, List.take_succ_cons]

/-! ## Parts -/

section Parts

variable {offset next : UInt64} {n m : Nat} (behind : next.toNat = offset.toNat + n)
  (inside : offset.toNat + n + m ≤ UInt64.size)

include behind

theorem add_ofNat_behind (i : Nat) : offset + UInt64.ofNat (n + i) = next + UInt64.ofNat i := by
  apply UInt64.toNat_inj.mp
  rw [toNat_add_ofNat, toNat_add_ofNat, behind, Nat.add_assoc]

include inside

theorem answered_parts_iff :
    (∃ whole, image.answer? none offset (n + m) = some whole) ↔
      (∃ first, image.answer? none offset n = some first) ∧ ∃ second, image.answer? none next m = some second := by
  rw [answered_iff (.inr (by omega)), answered_iff (.inr (by omega)), answered_iff (.inr (by omega))]
  constructor
  · intro hmaps
    exact ⟨fun i hi => hmaps i (by omega), fun i hi => add_ofNat_behind behind i ▸ hmaps (n + i) (by omega)⟩
  · rintro ⟨hfirst, hsecond⟩ i hi
    rcases Nat.lt_or_ge i n with hlt | hge
    · exact hfirst i hlt
    · obtain ⟨j, rfl⟩ := Nat.exists_eq_add_of_le hge
      exact add_ofNat_behind behind j ▸ hsecond j (by omega)

variable {whole second : List UInt8} (hwhole : image.answer? none offset (n + m) = some whole)
  (hsecond : image.answer? none next m = some second)

include hwhole hsecond

/-- Asked for together or on its own, a byte is one that is stored at its address. -/
theorem stores_of_parts {i : Nat} (hi : i < m) :
    ∃ c d, whole[n + i]? = some c ∧ second[i]? = some d ∧
      image.Stores (next + UInt64.ofNat i) c ∧ image.Stores (next + UInt64.ofNat i) d := by
  obtain ⟨c, hc, hstores⟩ := stores_of_answer? (.inr (by omega)) hwhole (Nat.add_lt_add_left hi n)
  obtain ⟨d, hd, hstores'⟩ := stores_of_answer? (.inr (by omega)) hsecond hi
  exact ⟨c, d, hc, hd, add_ofNat_behind behind i ▸ hstores, hstores'⟩

theorem drop_of_agrees (hagrees : ∀ i < m, image.Agrees (next + UInt64.ofNat i)) : whole.drop n = second := by
  apply List.ext_getElem?
  intro i
  rw [List.getElem?_drop]
  rcases Nat.lt_or_ge i m with hi | hi
  · obtain ⟨c, d, hc, hd, hstores, hstores'⟩ := stores_of_parts behind inside hwhole hsecond hi
    rw [hc, hd, (hagrees i hi).eq hstores hstores']
  · have hlength := length_answer? hwhole
    have hlength' := length_answer? hsecond
    rw [List.getElem?_eq_none (by omega), List.getElem?_eq_none (by omega)]

end Parts

/-! ## Passes -/

/-- What one pass takes for `n` bytes from `offset` on: the bytes that the first segment there has, to its end. -/
def pass? (image : SegmentedImage) (offset : UInt64) (n : Nat) : Option (List UInt8) :=
  (image.segmentAt? offset).map fun s => (s.contents.drop (offset - s.address).toNat).take n

/-- So many passes, one after the other, from `offset` on until there are `n` bytes or there is no segment; and
    what comes of them. -/
inductive Fills (image : SegmentedImage) : UInt64 → Nat → Nat → Option (List UInt8) → Prop
  | filled (offset : UInt64) : Fills image offset 0 0 (some [])
  | missing {offset : UInt64} {n : Nat} : 0 < n → image.pass? offset n = none → Fills image offset n 0 none
  | pass {offset : UInt64} {n passes : Nat} {taken : List UInt8} {rest : Option (List UInt8)} : 0 < n →
      image.pass? offset n = some taken →
      Fills image (offset + UInt64.ofNat taken.length) (n - taken.length) passes rest →
      Fills image offset n (passes + 1) (rest.map (taken ++ ·))

/-- A pass makes progress. -/
theorem length_pass? {offset : UInt64} {n : Nat} (hn : 0 < n) {taken : List UInt8}
    (h : image.pass? offset n = some taken) : 0 < taken.length ∧ taken.length ≤ n := by
  obtain ⟨s, hs, rfl⟩ := Option.map_eq_some_iff.mp h
  have hlt := (Segment.contains_iff.mp (segmentAt?_eq_some hs).2).2
  rw [List.length_take, List.length_drop, Segment.length_contents]
  omega

/-- From a position in a segment on, its bytes come first. -/
theorem answer?_within {s : Segment} {n : Nat} :
    ∀ {i : Nat} (offset : UInt64), image.answer? (some (s, i)) offset n =
      (image.answer? none (offset + UInt64.ofNat ((s.contents.drop i).take n).length)
        (n - ((s.contents.drop i).take n).length)).map ((s.contents.drop i).take n ++ ·) := by
  induction n with
  | zero =>
    intro i offset
    simp
  | succ n ih =>
    intro i offset
    cases hb : s.byte? i with
    | none =>
      have hend : s.contents.drop i = [] := by
        rw [Segment.byte?_eq, List.getElem?_eq_none_iff] at hb
        exact List.drop_eq_nil_of_le hb
      rw [answer?_congr (supply?_of_ended hb offset), hend]
      simp
    | some b =>
      have hmore : s.contents.drop i = b :: s.contents.drop (i + 1) := by
        rw [Segment.byte?_eq] at hb
        obtain ⟨hlt, rfl⟩ := List.getElem?_eq_some_iff.mp hb
        exact List.drop_eq_getElem_cons hlt
      rw [answer?_of_supply? (supply?_of_byte? hb offset), ih, hmore, List.take_succ_cons, List.length_cons,
        Nat.add_sub_add_right, add_ofNat_succ, Option.map_map]
      rfl

/-- A pass and what comes of the rest are the answer. -/
theorem answer?_pass {offset : UInt64} {n : Nat} (hn : 0 < n) {taken : List UInt8}
    (h : image.pass? offset n = some taken) :
    image.answer? none offset n =
      (image.answer? none (offset + UInt64.ofNat taken.length) (n - taken.length)).map (taken ++ ·) := by
  obtain ⟨s, hs, rfl⟩ := Option.map_eq_some_iff.mp h
  obtain ⟨b, hb⟩ := Segment.exists_stores (segmentAt?_eq_some hs).2
  obtain ⟨m, rfl⟩ : ∃ m, n = m + 1 := ⟨n - 1, by omega⟩
  rw [← answer?_within, answer?_of_supply? (supply?_none_of_segmentAt? hs hb),
    answer?_of_supply? (supply?_of_byte? (byte?_of_stores hb) offset)]

theorem answer?_missing {offset : UInt64} {n : Nat} (hn : 0 < n) (h : image.pass? offset n = none) :
    image.answer? none offset n = none := by
  obtain ⟨m, rfl⟩ : ∃ m, n = m + 1 := ⟨n - 1, by omega⟩
  have hnone : image.segmentAt? offset = none := Option.map_eq_none_iff.mp h
  refine answer?_of_missing ?_ m
  simp only [supply?, Option.bind_none, Option.none_or, hnone]

/-- The passes come to an end, since each takes a byte, and what comes of them is the answer. -/
theorem exists_fills (image : SegmentedImage) (offset : UInt64) (n : Nat) :
    ∃ passes ≤ n, image.Fills offset n passes (image.answer? none offset n) := by
  induction n using Nat.strongRecOn generalizing offset with
  | ind n ih =>
    rcases Nat.eq_zero_or_pos n with rfl | hn
    · exact ⟨0, Nat.le_refl 0, .filled offset⟩
    · cases hpass : image.pass? offset n with
      | none =>
        rw [answer?_missing hn hpass]
        exact ⟨0, Nat.zero_le n, .missing hn hpass⟩
      | some taken =>
        have hpos := (length_pass? hn hpass).1
        obtain ⟨passes, hpasses, hrest⟩ := ih (n - taken.length) (by omega) (offset + UInt64.ofNat taken.length)
        rw [answer?_pass hn hpass]
        exact ⟨passes + 1, by omega, .pass hn hpass hrest⟩

theorem Fills.unique {offset : UInt64} {n passes : Nat} {outcome : Option (List UInt8)}
    (h : image.Fills offset n passes outcome) :
    ∀ {count : Nat} {other : Option (List UInt8)}, image.Fills offset n count other → other = outcome := by
  induction h with
  | filled offset =>
    intro count other hother
    cases hother with
    | filled => rfl
    | missing hn | pass hn => exact absurd hn (Nat.lt_irrefl 0)
  | missing hn hpass =>
    intro count other hother
    cases hother with
    | filled => exact absurd hn (Nat.lt_irrefl 0)
    | missing => rfl
    | pass _ hpass' => cases hpass.symm.trans hpass'
  | pass hn hpass _ ih =>
    intro count other hother
    cases hother with
    | filled => exact absurd hn (Nat.lt_irrefl 0)
    | missing _ hpass' => cases hpass.symm.trans hpass'
    | pass _ hpass' hrest =>
      cases hpass.symm.trans hpass'
      rw [ih hrest]

/-! ## Requests -/

section Requests

variable {a : Address} {n : Nat}

theorem fill_answer (image : SegmentedImage) (a : Address) (n : Nat) :
    (ByteSource.fill image a n).1.map (·.val) =
      (image.answer? none a.offset n).elim (.error (.refused (.outOfRange a.offset n))) .ok := by
  change ((image.read a.offset n).mapError SourceFailure.refused).map (·.val) = _
  unfold read answer?
  cases image.gather? none a.offset n with
  | none | some => rfl

theorem answer?_of_fill {bytes : Bytes n} (h : (ByteSource.fill image a n).1 = .ok bytes) :
    image.answer? none a.offset n = some bytes.val := by
  have hanswer := fill_answer image a n
  rw [h] at hanswer
  cases hbytes : image.answer? none a.offset n with
  | none =>
    rw [hbytes] at hanswer
    cases hanswer
  | some other =>
    rw [hbytes] at hanswer
    exact congrArg some (Except.ok.inj hanswer).symm

theorem fill_succeeds_iff :
    (∃ bytes, (ByteSource.fill image a n).1 = .ok bytes) ↔ ∃ bytes, image.answer? none a.offset n = some bytes := by
  constructor
  · rintro ⟨bytes, h⟩
    exact ⟨bytes.val, answer?_of_fill h⟩
  · rintro ⟨bytes, h⟩
    have hanswer := fill_answer image a n
    rw [h] at hanswer
    obtain ⟨filled, hfilled, -⟩ := map_eq_ok.mp hanswer
    exact ⟨filled, hfilled⟩

theorem fill_error {failure : SourceFailure} (h : (ByteSource.fill image a n).1 = .error failure) :
    failure = .refused (.outOfRange a.offset n) := by
  have hanswer := fill_answer image a n
  rw [h] at hanswer
  cases hbytes : image.answer? none a.offset n with
  | none =>
    rw [hbytes] at hanswer
    exact Except.error.inj hanswer
  | some bytes =>
    rw [hbytes] at hanswer
    cases hanswer

end Requests

/-- The passes for a request end and answer it. It succeeds if each address is in a segment, and then each byte is
    stored there by one, which is by all if they are disjoint. A failure names the whole request. -/
theorem fill_mapped (image : SegmentedImage) (regular : image.Regular) (a : Address) (n : Nat) :
    (∃ passes ≤ n, ∃ outcome, image.Fills a.offset n passes outcome ∧
      (∀ count other, image.Fills a.offset n count other → other = outcome) ∧
      (ByteSource.fill image a n).1.map (·.val) =
        outcome.elim (.error (.refused (.outOfRange a.offset n))) .ok) ∧
      ((∃ bytes, (ByteSource.fill image a n).1 = .ok bytes) ↔
        ∀ i < n, image.Maps (a.offset + UInt64.ofNat i)) ∧
      (∀ bytes, (ByteSource.fill image a n).1 = .ok bytes → ∀ i < n, ∃ b, bytes.val[i]? = some b ∧
        image.Stores (a.offset + UInt64.ofNat i) b ∧
        (image.Disjoint → ∀ s ∈ image.segments, s.contains (a.offset + UInt64.ofNat i) = true →
          s.Stores (a.offset + UInt64.ofNat i) b)) ∧
      ∀ failure, (ByteSource.fill image a n).1 = .error failure → failure = .refused (.outOfRange a.offset n) := by
  have hwrap : image.Unwrapped a.offset n := .inl regular
  refine ⟨?_, fill_succeeds_iff.trans (answered_iff hwrap), ?_, fun failure => fill_error⟩
  · obtain ⟨passes, hpasses, hfills⟩ := image.exists_fills a.offset n
    exact ⟨passes, hpasses, _, hfills, fun count other => hfills.unique, fill_answer image a n⟩
  · intro bytes hbytes i hi
    obtain ⟨b, hb, hstores⟩ := stores_of_answer? hwrap (answer?_of_fill hbytes) hi
    exact ⟨b, hb, hstores, fun hdisjoint s hs => (hdisjoint.agrees _).stores hstores hs⟩

namespace Sample

/-- Eight bytes to an offset, so no offset is wrapped. -/
def longSpace : Space := ⟨⟨1⟩, "ram", .processor, 8, 1, true⟩

/-- Out of order, with one segment at the last address, one from the first on and one inside that. -/
def scattered : SegmentedImage :=
  ⟨[⟨"inner", 1, [0xaa], 0, false⟩, ⟨"last", 0xffffffffffffffff, [0x10], 0, false⟩, ⟨"first", 0, [0x20], 2, false⟩],
    none⟩

end Sample

/-- Four bytes from the last address on are there, and the next one is not. The segment `first` goes on to supply
    the byte that `inner` has as well. -/
theorem fill_mapped_scattered :
    let image := Sample.scattered
    let a := Sample.longSpace.address 0xffffffffffffffff
    image.Regular ∧ (ByteSource.fill image a 4).1 = .ok ⟨[0x10, 0x20, 0, 0], rfl⟩ ∧
      (∀ i < 4, image.Maps (a.offset + UInt64.ofNat i)) ∧
      image.Stores (a.offset + UInt64.ofNat 2) 0 ∧ image.Stores (a.offset + UInt64.ofNat 2) 0xaa ∧
      (ByteSource.fill image a 5).1 = .error (.refused (.outOfRange 0xffffffffffffffff 5)) ∧
      ¬ ∀ i < 5, image.Maps (a.offset + UInt64.ofNat i) := by
  intro image a
  have regular : image.Regular := by decide
  obtain ⟨-, hfour, hstored, -⟩ := fill_mapped image regular a 4
  obtain ⟨-, hfive, -⟩ := fill_mapped image regular a 5
  have hbytes : (ByteSource.fill image a 4).1 = .ok ⟨[0x10, 0x20, 0, 0], rfl⟩ := by decide +kernel
  have hrefused : (ByteSource.fill image a 5).1 = .error (.refused (.outOfRange 0xffffffffffffffff 5)) := by
    decide +kernel
  obtain ⟨b, hb, hstores, -⟩ := hstored _ hbytes 2 (by decide)
  refine ⟨regular, hbytes, hfour.mp ⟨_, hbytes⟩, ?_, by decide +kernel, hrefused, fun hmaps => ?_⟩
  · cases hb
    exact hstores
  · obtain ⟨bytes, h⟩ := hfive.mpr hmaps
    cases hrefused.symm.trans h

/-- A request succeeds if its two parts do. The first part is answered alike on its own; the second is where the
    segments at its addresses agree, and in any case with bytes that are stored there. -/
theorem fill_parts (image : SegmentedImage) (a b : Address) (n m : Nat) (behind : b.offset.toNat = a.offset.toNat + n)
    (inside : a.offset.toNat + n + m ≤ UInt64.size) :
    ((∃ whole, (ByteSource.fill image a (n + m)).1 = .ok whole) ↔
      (∃ first, (ByteSource.fill image a n).1 = .ok first) ∧
        ∃ second, (ByteSource.fill image b m).1 = .ok second) ∧
      ∀ whole first second, (ByteSource.fill image a (n + m)).1 = .ok whole →
        (ByteSource.fill image a n).1 = .ok first → (ByteSource.fill image b m).1 = .ok second →
        whole.val.take n = first.val ∧
        (∀ i < m, ∃ c d, whole.val[n + i]? = some c ∧ second.val[i]? = some d ∧
          image.Stores (b.offset + UInt64.ofNat i) c ∧ image.Stores (b.offset + UInt64.ofNat i) d) ∧
        ((∀ i < m, image.Agrees (b.offset + UInt64.ofNat i)) → whole.val = first.val ++ second.val) := by
  constructor
  · rw [fill_succeeds_iff, fill_succeeds_iff, fill_succeeds_iff]
    exact answered_parts_iff behind inside
  · intro whole first second hw hf hs
    have hwhole := answer?_of_fill hw
    have hsecond := answer?_of_fill hs
    have htake : whole.val.take n = first.val :=
      Option.some.inj ((answer?_take hwhole).symm.trans (answer?_of_fill hf))
    refine ⟨htake, fun i hi => stores_of_parts behind inside hwhole hsecond hi, fun hagrees => ?_⟩
    rw [← htake, ← drop_of_agrees behind inside hwhole hsecond hagrees, List.take_append_drop]

namespace Sample

/-- Two segments over one address, where both have the byte 2. -/
def lapped : SegmentedImage := ⟨[⟨"high", 1, [2, 3], 0, false⟩, ⟨"low", 0, [1, 2], 0, false⟩], none⟩

/-- Two segments over one address, where they have different bytes. -/
def crossed : SegmentedImage := ⟨[⟨"high", 1, [0xaa], 0, false⟩, ⟨"low", 0, [1, 2], 0, false⟩], none⟩

end Sample

theorem fill_parts_lapped :
    let image := Sample.lapped
    let a := Sample.longSpace.address 0
    let b := Sample.longSpace.address 1
    b.offset.toNat = a.offset.toNat + 1 ∧ a.offset.toNat + 1 + 2 ≤ UInt64.size ∧
      (∀ i < 2, image.Agrees (b.offset + UInt64.ofNat i)) ∧
      ∃ whole first second, (ByteSource.fill image a (1 + 2)).1 = .ok whole ∧
        (ByteSource.fill image a 1).1 = .ok first ∧ (ByteSource.fill image b 2).1 = .ok second ∧
        whole.val = first.val ++ second.val := by
  intro image a b
  have behind : b.offset.toNat = a.offset.toNat + 1 := by decide +kernel
  have inside : a.offset.toNat + 1 + 2 ≤ UInt64.size := by decide +kernel
  have hagrees : ∀ i < 2, image.Agrees (b.offset + UInt64.ofNat i) := by decide +kernel
  obtain ⟨hsucceeds, hanswers⟩ := fill_parts image a b 1 2 behind inside
  have hwhole : (ByteSource.fill image a (1 + 2)).1 = .ok ⟨[1, 2, 3], rfl⟩ := by decide +kernel
  obtain ⟨⟨first, hfirst⟩, second, hsecond⟩ := hsucceeds.mp ⟨_, hwhole⟩
  exact ⟨behind, inside, hagrees, _, first, second, hwhole, hfirst, hsecond,
    (hanswers _ first second hwhole hfirst hsecond).2.2 hagrees⟩

/-- The whole request reaches the second address in the segment `low`; alone, it is looked for anew and found in
    `high` first. -/
theorem crossed_parts :
    let image := Sample.crossed
    let a := Sample.longSpace.address 0
    let b := Sample.longSpace.address 1
    b.offset.toNat = a.offset.toNat + 1 ∧ a.offset.toNat + 1 + 1 ≤ UInt64.size ∧
      (ByteSource.fill image a (1 + 1)).1 = .ok ⟨[1, 2], rfl⟩ ∧ (ByteSource.fill image a 1).1 = .ok ⟨[1], rfl⟩ ∧
      (ByteSource.fill image b 1).1 = .ok ⟨[0xaa], rfl⟩ ∧ [1, 2] ≠ [1] ++ [(0xaa : UInt8)] :=
  ⟨by decide +kernel, by decide +kernel, by decide +kernel, by decide +kernel, by decide +kernel, by decide⟩

end SegmentedImage

end Lifter
