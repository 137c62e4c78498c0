/-
  Lifter.Proofs.FirstMatch — which instruction is found.

  An encoding matches the bytes at hand if there are enough of them and the number that
  the first ones stand for, in the byte order of the processor, has the required bits
  under the mask (`Encoding.Matches`). `SelectsFirst` is what a caller may expect of a
  search, said of the result, of the requests that were made and of the candidates
  alone: the first candidate that matches, no match if the bytes for the longest
  candidate were supplied and none matches, and otherwise the failure of the request for
  what the next longer candidate needs. `fetch_selects_first` says that every call on
  an accepted language is of this kind, for the candidates that the description
  declares, shortest first, and whose conditions hold at the offset. Conditions are read
  by the names of their fields there; over the fields of the language, reading them by
  position, step by step, finds the same.
-/

import Lifter.Proofs.NoBreach

namespace Lifter

/-! ## Conditions -/

/-- The context at `a` has every value that the encoding asks for. -/
def Encoding.Applies (e : Encoding) (context : Context) (a : Address) : Prop :=
  ∀ c ∈ e.constraints, context.get c.field a = .ok c.value

theorem Constraint.holds_iff {c : Constraint} {context : Context} {a : Address} :
    c.holds context a = true ↔ context.get c.field a = .ok c.value := by
  unfold Constraint.holds Context.value? Context.get Context.lookup
  cases context.slot? c.field <;> simp [Except.map]

theorem Encoding.isAdmitted_iff {e : Encoding} {context : Context} {a : Address} :
    e.isAdmitted context a = true ↔ e.Applies context a := by
  simp only [Encoding.isAdmitted, List.all_eq_true, Constraint.holds_iff, Encoding.Applies]

instance (e : Encoding) (context : Context) (a : Address) : Decidable (e.Applies context a) :=
  decidable_of_iff _ Encoding.isAdmitted_iff

/-! ## Matching -/

/-- The number that bytes stand for, the least significant of them first. -/
def littleEndianNumber : List UInt8 → Nat
  | [] => 0
  | b :: bytes => b.toNat + 256 * littleEndianNumber bytes

theorem littleEndianNumber_lt (bytes : List UInt8) : littleEndianNumber bytes < capacity (8 * bytes.length) := by
  induction bytes with
  | nil => decide
  | cons b bytes ih =>
    have hsplit : capacity (8 * (b :: bytes).length) = 256 * capacity (8 * bytes.length) := by
      simp only [capacity, Nat.pow_eq, List.length_cons, Nat.mul_add, Nat.pow_add]
      omega
    have hb := b.toNat_lt
    rw [hsplit, littleEndianNumber]
    omega

/-- Up to eight bytes, the last of them the most significant, spell their number: nothing is shifted out
    of the word. -/
theorem toNat_bigEndianWord_reverse {bytes : List UInt8} (h : bytes.length ≤ maxInstructionSize) :
    (bigEndianWord bytes.reverse).toNat = littleEndianNumber bytes := by
  induction bytes with
  | nil => rfl
  | cons b bytes ih =>
    rw [List.length_cons] at h
    have hlt := littleEndianNumber_lt (b :: bytes)
    have hmax := capacity_mono (Nat.mul_le_mul_left 8 h)
    have hsize : capacity (8 * maxInstructionSize) = 18446744073709551616 := rfl
    have hcount : (8 : UInt64).toNat % 64 = 8 := rfl
    rw [List.length_cons, littleEndianNumber] at hlt
    rw [List.reverse_cons, bigEndianWord_concat, UInt64.toNat_or, UInt64.toNat_shiftLeft, ih (by omega), hcount,
      UInt8.toNat_toUInt64, Nat.shiftLeft_eq, Nat.mod_eq_of_lt (by omega), ← Nat.shiftLeft_eq,
      ← Nat.shiftLeft_add_eq_or_of_lt b.toNat_lt, Nat.shiftLeft_eq, littleEndianNumber]
    omega

theorem toNat_word (bigEndian : Bool) {bytes : List UInt8} (h : bytes.length ≤ maxInstructionSize) :
    (word bigEndian bytes).toNat = littleEndianNumber (if bigEndian then bytes.reverse else bytes) := by
  cases bigEndian with
  | true =>
    have hreverse : bytes.reverse.length ≤ maxInstructionSize := by rwa [List.length_reverse]
    have hword := toNat_bigEndianWord_reverse hreverse
    rwa [List.reverse_reverse] at hword
  | false => exact toNat_bigEndianWord_reverse h

/-- There are bytes enough, the first of them spell `w` in the byte order of the processor, and `w` has
    the bits of the encoding under its mask. -/
structure Encoding.Matches (e : Encoding) (bigEndian : Bool) (bytes : List UInt8) (w : UInt64) : Prop where
  length_le : e.length ≤ bytes.length
  spelled : w.toNat = littleEndianNumber (if bigEndian then (bytes.take e.length).reverse else bytes.take e.length)
  bits : w &&& e.mask = e.bits

theorem Encoding.matches_iff {e : Encoding} (h : e.length ≤ maxInstructionSize) {bigEndian : Bool}
    {bytes : List UInt8} {w : UInt64} :
    e.Matches bigEndian bytes w ↔ e.matchesBytes bigEndian bytes = true ∧ w = e.wordOf bigEndian bytes := by
  have hlength : (bytes.take e.length).length ≤ maxInstructionSize := by
    rw [List.length_take]
    omega
  have hspelled := toNat_word bigEndian hlength
  simp only [matchesBytes, fitsBytes, fits, Bool.and_eq_true, decide_eq_true_eq, beq_iff_eq]
  constructor
  · intro h
    obtain ⟨hle, hw, hbits⟩ := h
    have heq : w = e.wordOf bigEndian bytes := UInt64.toNat_inj.mp (hw.trans hspelled.symm)
    subst heq
    exact ⟨⟨hle, hbits⟩, rfl⟩
  · intro h
    obtain ⟨⟨hle, hbits⟩, rfl⟩ := h
    exact ⟨hle, hspelled, hbits⟩

theorem Encoding.not_matches_iff {e : Encoding} (h : e.length ≤ maxInstructionSize) {bigEndian : Bool}
    {bytes : List UInt8} : (∀ w, ¬ e.Matches bigEndian bytes w) ↔ e.matchesBytes bigEndian bytes = false := by
  simp [matches_iff h]

/-! ## The search as its caller sees it -/

/-- The result at `offset` is the one that these candidates and the requests made for them allow. -/
structure SelectsFirst (l : Language) (offset : UInt64) (candidates : List Encoding)
    (result : Except DecodeError Instruction) (requests : List Request) : Prop where
  outOfSpace : (∃ a space, result = .error (.outOfSpace a space)) ↔ l.codeSpace.highest < offset
  misaligned : (∃ a n, result = .error (.misaligned a n)) ↔
    offset ≤ l.codeSpace.highest ∧ ¬ l.alignment ∣ offset.toNat
  /-- The first candidate that matches, with the word that it matches. -/
  found : l.InPlace offset → ∀ i, result = .ok i ↔
    i.start = offset ∧ i.encoding.Matches l.bigEndian (suppliedBytes requests) i.word ∧
      ∃ before after, candidates = before ++ i.encoding :: after ∧
        ∀ c ∈ before, ∀ w, ¬ c.Matches l.bigEndian (suppliedBytes requests) w
  noMatch : l.InPlace offset → ((∃ a, result = .error (.noMatch a)) ↔
    (suppliedBytes requests).length = Encoding.longest candidates ∧
      ∀ c ∈ candidates, ∀ w, ¬ c.Matches l.bigEndian (suppliedBytes requests) w)
  /-- The source refused what the first candidate needs that is longer than the bytes supplied, and
      these match none of the others. -/
  byteSource : l.InPlace offset → ∀ a n cause, result = .error (.byteSource a n cause) ↔
    (∀ c ∈ candidates, ∀ w, ¬ c.Matches l.bigEndian (suppliedBytes requests) w) ∧
      ∃ e, candidates.find? (fun e => decide ((suppliedBytes requests).length < e.length)) = some e ∧
        n = e.length - (suppliedBytes requests).length ∧
        a = (l.codeAddress (offset + UInt64.ofNat (suppliedBytes requests).length)).offset ∧
        requests.getLast? = some ⟨l.codeAddress (offset + UInt64.ofNat (suppliedBytes requests).length), n,
          .error (.refused cause)⟩
  /-- Only a source that breaks down leads to a fault. -/
  callbackFault : ∀ a message, result = .error (.callbackFault a message) ↔
    a = offset ∧ ∃ q ∈ requests, ∃ fault, q.outcome = .error (.broke fault) ∧ fault.message = message

section Finding

variable {candidates : List Encoding} (hlengths : ∀ e ∈ candidates, e.length ≤ maxInstructionSize)
  {bigEndian : Bool} {bytes : List UInt8}

include hlengths

theorem find?_matchesBytes_eq_none :
    candidates.find? (·.matchesBytes bigEndian bytes) = none ↔
      ∀ c ∈ candidates, ∀ w, ¬ c.Matches bigEndian bytes w := by
  rw [List.find?_eq_none]
  refine forall₂_congr fun c hc => ?_
  rw [Encoding.not_matches_iff (hlengths c hc), Bool.not_eq_true]

theorem find?_matchesBytes_eq_some {e : Encoding} :
    candidates.find? (·.matchesBytes bigEndian bytes) = some e ↔
      e.matchesBytes bigEndian bytes = true ∧
        ∃ before after, candidates = before ++ e :: after ∧ ∀ c ∈ before, ∀ w, ¬ c.Matches bigEndian bytes w := by
  rw [List.find?_eq_some_iff_append]
  refine and_congr_right fun _ => exists_congr fun before => exists_congr fun after => and_congr_right fun heq => ?_
  refine forall₂_congr fun c hc => ?_
  rw [Encoding.not_matches_iff (hlengths c (by simp [heq, hc])), Bool.not_eq_true']

/-- What the search finds is the first candidate that matches, with the word that it matches. -/
theorem found_iff (offset : UInt64) (i : Instruction) :
    (∃ e, candidates.find? (·.matchesBytes bigEndian bytes) = some e ∧ i = ⟨e, e.wordOf bigEndian bytes, offset⟩) ↔
      i.start = offset ∧ i.encoding.Matches bigEndian bytes i.word ∧
        ∃ before after, candidates = before ++ i.encoding :: after ∧
          ∀ c ∈ before, ∀ w, ¬ c.Matches bigEndian bytes w := by
  constructor
  · intro hi
    obtain ⟨e, he, rfl⟩ := hi
    obtain ⟨hmatch, hfirst⟩ := (find?_matchesBytes_eq_some hlengths).mp he
    have hle := hlengths e (List.mem_of_find?_eq_some he)
    exact ⟨rfl, (Encoding.matches_iff hle).mpr ⟨hmatch, rfl⟩, hfirst⟩
  · intro hi
    obtain ⟨hstart, hmatches, before, after, heq, hbefore⟩ := hi
    have hle := hlengths i.encoding (by simp [heq])
    obtain ⟨hmatch, hw⟩ := (Encoding.matches_iff hle).mp hmatches
    refine ⟨i.encoding, (find?_matchesBytes_eq_some hlengths).mpr ⟨hmatch, before, after, heq, hbefore⟩, ?_⟩
    rw [← hw, ← hstart]

/-- Where bytes were there for all of them, none fits just if none matches. -/
theorem forall_fitsBytes_iff (hlen : bytes.length = Encoding.longest candidates) :
    (∀ e ∈ candidates, e.fitsBytes bigEndian bytes = false) ↔
      ∀ c ∈ candidates, ∀ w, ¬ c.Matches bigEndian bytes w := by
  refine forall₂_congr fun c hc => ?_
  have hle : c.length ≤ bytes.length := hlen ▸ Encoding.le_longest c hc
  simp [Encoding.not_matches_iff (hlengths c hc), Encoding.matchesBytes, hle]

end Finding

variable {σ : Type} [ByteSource σ]

theorem selectsFirst_of_search {l : Language} {offset : UInt64} {candidates : List Encoding}
    {result : Except DecodeError Instruction} {requests : List Request} {final : List UInt8} (h : l.InPlace offset)
    (hlengths : ∀ e ∈ candidates, e.length ≤ maxInstructionSize)
    (hsorted : candidates.Pairwise fun e f => e.length ≤ f.length)
    (hs : Search l.bigEndian (l.codeAddress offset) candidates [] requests result final) :
    SelectsFirst l offset candidates result requests := by
  have hfinal := hs.final_eq
  have hstart := Engine.offset_codeAddress h
  subst hfinal
  refine ⟨?_, ?_, fun _ i => ?_, fun _ => ?_, fun _ a n cause => ?_, fun a message => ?_⟩
  · refine ⟨?_, fun hout => absurd h.1 (UInt64.not_le.mpr hout)⟩
    intro ⟨a, space, herr⟩
    exact absurd herr (hs.ne_outOfSpace a space)
  · refine ⟨?_, fun hmis => absurd (Nat.dvd_of_mod_eq_zero h.2) hmis.2⟩
    intro ⟨a, n, herr⟩
    exact absurd herr (hs.ne_misaligned a n)
  · rw [hs.ok_iff hsorted, hstart]
    exact found_iff hlengths offset i
  · rw [hs.noMatch_iff hsorted]
    exact and_congr_right fun hlen => forall_fitsBytes_iff hlengths hlen
  · rw [← find?_matchesBytes_eq_none hlengths]
    constructor
    · intro herr
      obtain ⟨q, hq, hrefused, rfl, rfl⟩ := (hs.byteSource_iff a n cause).mp herr
      obtain ⟨hnone, e, he, hlast⟩ := hs.find?_of_failed hsorted hq hrefused
      obtain ⟨-, hlast', -⟩ := hs.of_failed hq hrefused
      rw [Engine.advance_codeAddress h] at hlast
      have hqe := Option.some.inj (hlast'.symm.trans hlast)
      exact ⟨hnone, e, he, by rw [hqe], by rw [hqe], by rw [hlast, hqe]⟩
    · rintro ⟨-, e, -, -, rfl, hlast⟩
      exact (hs.byteSource_iff _ n cause).mpr ⟨_, List.mem_of_getLast? hlast, rfl, rfl, rfl⟩
  · rw [hs.callbackFault_iff, hstart]

theorem selectsFirst_outOfSpace {l : Language} {offset : UInt64} (candidates : List Encoding)
    (h : l.codeSpace.highest < offset) :
    SelectsFirst l offset candidates (.error (.outOfSpace offset l.codeSpace.name)) [] := by
  have hin : ¬ l.InPlace offset := fun hin => UInt64.not_le.mpr h hin.1
  refine ⟨⟨fun _ => h, fun _ => ⟨_, _, rfl⟩⟩, ⟨?_, fun hmis => absurd h (UInt64.not_lt.mpr hmis.1)⟩,
    fun hp => absurd hp hin, fun hp => absurd hp hin, fun hp => absurd hp hin, fun a message => ?_⟩
  · rintro ⟨a, n, herr⟩
    cases herr
  · simp

theorem selectsFirst_misaligned {l : Language} {offset : UInt64} (candidates : List Encoding)
    (h : offset ≤ l.codeSpace.highest) (ha : offset.toNat % l.alignment ≠ 0) :
    SelectsFirst l offset candidates (.error (.misaligned offset l.alignment)) [] := by
  have hin : ¬ l.InPlace offset := fun hin => ha hin.2
  have hdvd : ¬ l.alignment ∣ offset.toNat := fun hd => ha (Nat.mod_eq_zero_of_dvd hd)
  refine ⟨⟨?_, fun hout => absurd hout (UInt64.not_lt.mpr h)⟩, ⟨fun _ => ⟨h, hdvd⟩, fun _ => ⟨_, _, rfl⟩⟩,
    fun hp => absurd hp hin, fun hp => absurd hp hin, fun hp => absurd hp hin, fun a message => ?_⟩
  · rintro ⟨a, space, herr⟩
    cases herr
  · simp

/-- Every call finds the first of the described encodings that applies and matches; and where the context
    has the fields of the language, so does the search that reads their values by position. -/
theorem fetch_selects_first {root : Element} (engine : Engine σ) (offset : UInt64)
    (accepted : Language.ofElement root = .ok engine.language) :
    (∃ instructions declared ordered, root.child? "instructions" = some instructions ∧
      List.Forall₂ Specification.Describes (instructions.childrenNamed "instruction") declared ∧
      Specification.InOrderOfLength declared ordered ∧
      SelectsFirst engine.language offset
        (ordered.filter fun e => decide (e.Applies engine.context (engine.language.codeAddress offset)))
        (engine.fetch offset).result (engine.observed.fetch offset).source.requests) ∧
    (engine.context.names = engine.language.contextFields.map (·.name) →
      Checked.fetch engine offset = .ok (engine.fetch offset)) := by
  have hw := ofElement_wellFormed accepted
  refine ⟨?_, fun hnames => Checked.fetch_eq hw hnames offset⟩
  obtain ⟨instructions, declared, hchild, hdescribed, hordered⟩ := ofElement_encodings accepted
  refine ⟨instructions, declared, engine.language.encodings, hchild, hdescribed, hordered, ?_⟩
  have hcandidates : (engine.language.encodings.filter fun e =>
      decide (e.Applies engine.context (engine.language.codeAddress offset))) = engine.candidates offset := by
    refine List.filter_congr fun e _ => ?_
    rw [← Bool.coe_iff_coe, decide_eq_true_iff, Encoding.isAdmitted_iff]
  rw [hcandidates, ← (engine.fetch_observed offset).1]
  rcases Engine.inPlace_cases engine.language offset with h | ⟨h, ha⟩ | h
  · have hin : ¬ engine.language.InPlace offset := fun hin => UInt64.not_le.mpr h hin.1
    rw [engine.requests_of_not_inPlace hin, Engine.fetch_outOfSpace engine.observed h]
    exact selectsFirst_outOfSpace _ h
  · have hin : ¬ engine.language.InPlace offset := fun hin => ha hin.2
    rw [engine.requests_of_not_inPlace hin, Engine.fetch_misaligned engine.observed h ha]
    exact selectsFirst_misaligned _ h ha
  · refine selectsFirst_of_search h (fun e he => ?_) (hordered.ascending.filter _) (engine.fetch_search h)
    exact (hw.encodings e (List.mem_of_mem_filter he)).length_le

/-- On the byte 0x11 the sample language finds `inc`, and needs no second byte for it. -/
theorem fetch_selects_first_inc :
    let engine := Engine.ofLanguage (⟨0, [0x11]⟩ : FlatImage) Sample.language
    Language.ofElement Sample.root = .ok engine.language ∧
      (engine.fetch 0).result = .ok ⟨Sample.inc, 0x11, 0⟩ ∧
      (∃ instructions declared ordered, Sample.root.child? "instructions" = some instructions ∧
        List.Forall₂ Specification.Describes (instructions.childrenNamed "instruction") declared ∧
        Specification.InOrderOfLength declared ordered ∧
        SelectsFirst engine.language 0
          (ordered.filter fun e => decide (e.Applies engine.context (engine.language.codeAddress 0)))
          (engine.fetch 0).result (engine.observed.fetch 0).source.requests) ∧
      Checked.fetch engine 0 = .ok (engine.fetch 0) := by
  obtain ⟨hfirst, hchecked⟩ :=
    fetch_selects_first (Engine.ofLanguage (⟨0, [0x11]⟩ : FlatImage) Sample.language) 0 Sample.accepted
  exact ⟨Sample.accepted, by rfl, hfirst, hchecked rfl⟩

end Lifter
