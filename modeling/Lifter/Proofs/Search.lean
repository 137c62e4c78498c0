/-
  Lifter.Proofs.Search — the search for the first encoding that fits.

  `Search` relates the candidates and the bytes at hand to the requests that are made,
  the result, and the bytes in the end, one rule for each thing the search can do with
  its first candidate. `select_search` is the only place that opens the engine's own
  search; what holds of every run follows by induction on `Search`: the bytes in the
  end are those at hand and those supplied (`Search.bytes_eq`), requests follow each
  other without a gap (`Search.chained`), and the result is the first candidate that
  fits these bytes (`Search.ok_iff`), no candidate (`Search.noMatch_iff`) or the
  failure of the last request (`Search.byteSource_iff`, `Search.callbackFault_iff`).
-/

import Lifter.Engine
import Mathlib.Data.List.Basic

namespace Lifter

/-! ## Watching a call -/

/-- The engine with its source observed. -/
def Engine.observed {σ : Type} (e : Engine σ) : Engine (Observed σ) := { e with source := .ofSource e.source }

/-- The bytes that requests brought, in order. -/
def suppliedBytes (requests : List Request) : List UInt8 := requests.flatMap (·.supplied)

@[simp] theorem suppliedBytes_nil : suppliedBytes [] = [] := rfl

@[simp] theorem suppliedBytes_cons (r : Request) (rs : List Request) :
    suppliedBytes (r :: rs) = r.supplied ++ suppliedBytes rs := rfl

/-- Requests that start where `got` bytes from `start` end, each going on where the last one ended,
    up to the first that fails. -/
def Chained (start : Address) : Nat → List Request → Prop
  | _, [] => True
  | got, r :: rs =>
    r.address = start.advance (UInt64.ofNat got) ∧ 0 < r.size ∧
      match r.outcome with
      | .ok bytes => bytes.length = r.size ∧ Chained start (got + r.size) rs
      | .error _ => rs = []

/-! ## The search -/

namespace Encoding

/-- The word that the first bytes spell, as many as the encoding has. -/
def wordOf (e : Encoding) (bigEndian : Bool) (bytes : List UInt8) : UInt64 := word bigEndian (bytes.take e.length)

def fitsBytes (e : Encoding) (bigEndian : Bool) (bytes : List UInt8) : Bool := e.fits (e.wordOf bigEndian bytes)

/-- There are enough bytes, and they fit. -/
def matchesBytes (e : Encoding) (bigEndian : Bool) (bytes : List UInt8) : Bool :=
  decide (e.length ≤ bytes.length) && e.fitsBytes bigEndian bytes

theorem wordOf_append {e : Encoding} {bytes : List UInt8} (h : e.length ≤ bytes.length) (bigEndian : Bool)
    (more : List UInt8) : e.wordOf bigEndian (bytes ++ more) = e.wordOf bigEndian bytes := by
  rw [wordOf, wordOf, List.take_append_of_le_length h]

/-- The length of the longest, 0 if there are none. -/
def longest : List Encoding → Nat
  | [] => 0
  | e :: es => max e.length (longest es)

theorem le_longest {es : List Encoding} : ∀ e ∈ es, e.length ≤ longest es := by
  induction es with
  | nil => intro e he; cases he
  | cons f es ih =>
    intro e he
    rcases List.mem_cons.mp he with rfl | he
    · exact Nat.le_max_left _ _
    · exact Nat.le_trans (ih e he) (Nat.le_max_right _ _)

end Encoding

/-- A search through candidates with `bytes` at hand: its requests, its result and the bytes in the
    end. -/
inductive Search (bigEndian : Bool) (start : Address) :
    List Encoding → List UInt8 → List Request → Except DecodeError Instruction → List UInt8 → Prop
  | exhausted (bytes : List UInt8) : Search bigEndian start [] bytes [] (.error (.noMatch start.offset)) bytes
  | found {e : Encoding} {es : List Encoding} {bytes : List UInt8} :
      e.length ≤ bytes.length → e.fitsBytes bigEndian bytes = true →
      Search bigEndian start (e :: es) bytes [] (.ok ⟨e, e.wordOf bigEndian bytes, start.offset⟩) bytes
  | passed {e : Encoding} {es : List Encoding} {bytes final : List UInt8} {rs : List Request}
      {r : Except DecodeError Instruction} :
      e.length ≤ bytes.length → e.fitsBytes bigEndian bytes = false →
      Search bigEndian start es bytes rs r final → Search bigEndian start (e :: es) bytes rs r final
  | supplied {e : Encoding} {es : List Encoding} {bytes final : List UInt8} {rs : List Request}
      {r : Except DecodeError Instruction} (more : List UInt8) :
      bytes.length < e.length → more.length = e.length - bytes.length →
      Search bigEndian start (e :: es) (bytes ++ more) rs r final →
      Search bigEndian start (e :: es) bytes
        (⟨start.advance (UInt64.ofNat bytes.length), e.length - bytes.length, .ok more⟩ :: rs) r final
  | failed {e : Encoding} {es : List Encoding} {bytes : List UInt8} (failure : SourceFailure) :
      bytes.length < e.length →
      Search bigEndian start (e :: es) bytes
        [⟨start.advance (UInt64.ofNat bytes.length), e.length - bytes.length, .error failure⟩]
        (.error (failure.error start.offset (start.advance (UInt64.ofNat bytes.length)) (e.length - bytes.length)))
        bytes

section Selecting

variable {σ : Type} [ByteSource σ] {bigEndian : Bool} {start : Address}

/-- What the engine's search does with its first candidate, once there are bytes enough. -/
theorem select_of_le {e : Encoding} {es : List Encoding} {bytes : List UInt8} (source : σ)
    (h : e.length ≤ bytes.length) :
    select bigEndian start (e :: es) bytes source =
      if e.fitsBytes bigEndian bytes = true then
        ⟨.ok ⟨e, e.wordOf bigEndian bytes, start.offset⟩, bytes, source⟩
      else select bigEndian start es bytes source := by
  simp only [select, extend, h, if_true]
  rfl

/-- Before that, it asks for the bytes that are missing. -/
theorem select_of_lt {e : Encoding} {es : List Encoding} {bytes : List UInt8} (source : σ)
    (h : bytes.length < e.length) :
    select bigEndian start (e :: es) bytes source =
      match ByteSource.fill source (start.advance (UInt64.ofNat bytes.length)) (e.length - bytes.length) with
      | (.ok more, next) => select bigEndian start (e :: es) (bytes ++ more.val) next
      | (.error failure, next) =>
        ⟨.error (failure.error start.offset (start.advance (UInt64.ofNat bytes.length)) (e.length - bytes.length)),
          bytes, next⟩ := by
  have hn : ¬ e.length ≤ bytes.length := by omega
  rw [select, extend, if_neg hn]
  rcases hfill : ByteSource.fill source (start.advance (UInt64.ofNat bytes.length)) (e.length - bytes.length) with
    ⟨_ | more, next⟩
  · simp only [hfill]
  · have hle : e.length ≤ (bytes ++ more.val).length := by rw [List.length_append, more.property]; omega
    simp only [hfill]
    rw [select_of_le next hle]
    rfl

/-- What every step of the engine's search keeps holds of the whole of it. -/
theorem select_induction {P : List Encoding → List UInt8 → σ → Fetch σ Instruction → Prop}
    (exhausted : ∀ bytes source, P [] bytes source ⟨.error (.noMatch start.offset), bytes, source⟩)
    (found : ∀ e es bytes source, e.length ≤ bytes.length → e.fitsBytes bigEndian bytes = true →
      P (e :: es) bytes source ⟨.ok ⟨e, e.wordOf bigEndian bytes, start.offset⟩, bytes, source⟩)
    (passed : ∀ e es bytes source r, e.length ≤ bytes.length → e.fitsBytes bigEndian bytes = false →
      P es bytes source r → P (e :: es) bytes source r)
    (supplied : ∀ e es bytes source more next r, bytes.length < e.length →
      ByteSource.fill source (start.advance (UInt64.ofNat bytes.length)) (e.length - bytes.length) = (.ok more, next) →
      P (e :: es) (bytes ++ more.val) next r → P (e :: es) bytes source r)
    (failed : ∀ e es bytes source failure next, bytes.length < e.length →
      ByteSource.fill source (start.advance (UInt64.ofNat bytes.length)) (e.length - bytes.length) =
        (.error failure, next) →
      P (e :: es) bytes source
        ⟨.error (failure.error start.offset (start.advance (UInt64.ofNat bytes.length)) (e.length - bytes.length)),
          bytes, next⟩)
    (es : List Encoding) : ∀ bytes source, P es bytes source (select bigEndian start es bytes source) := by
  induction es with
  | nil => exact exhausted
  | cons e es ih =>
    -- with bytes enough for `e`, one step leads to `es`
    have enough : ∀ bytes source, e.length ≤ bytes.length →
        P (e :: es) bytes source (select bigEndian start (e :: es) bytes source) := by
      intro bytes source h
      rw [select_of_le source h]
      by_cases hfit : e.fitsBytes bigEndian bytes = true
      · rw [if_pos hfit]
        exact found e es bytes source h hfit
      · rw [if_neg hfit]
        exact passed e es bytes source _ h (by simpa using hfit) (ih bytes source)
    intro bytes source
    rcases Nat.lt_or_ge bytes.length e.length with h | h
    · rw [select_of_lt source h]
      rcases hfill : ByteSource.fill source (start.advance (UInt64.ofNat bytes.length)) (e.length - bytes.length) with
        ⟨failure | more, next⟩
      · exact failed e es bytes source failure next h hfill
      · refine supplied e es bytes source more next _ h hfill (enough _ next ?_)
        rw [List.length_append, more.property]
        omega
    · exact enough bytes source h

/-- An observed source answers as the source in it does. -/
theorem Observed.fill_source (o : Observed σ) (a : Address) (n : Nat) :
    ByteSource.fill o.source a n = ((ByteSource.fill o a n).1, (ByteSource.fill o a n).2.source) := rfl

theorem Observed.fill_log (o : Observed σ) (a : Address) (n : Nat) :
    (ByteSource.fill o a n).2.log = ⟨a, n, (ByteSource.fill o a n).1.map (·.val)⟩ :: o.log := rfl

/-- The engine's search, over an observed source, is a `Search` whose requests are those in the log. -/
theorem select_search (es : List Encoding) :
    ∀ (bytes : List UInt8) (o : Observed σ), ∃ rs,
      (select bigEndian start es bytes o).source.log = rs.reverse ++ o.log ∧
        Search bigEndian start es bytes rs (select bigEndian start es bytes o).result
          (select bigEndian start es bytes o).bytes := by
  apply select_induction
    (P := fun es bytes (o : Observed σ) r => ∃ rs,
      r.source.log = rs.reverse ++ o.log ∧ Search bigEndian start es bytes rs r.result r.bytes)
  case exhausted =>
    intro bytes o
    exact ⟨[], rfl, .exhausted bytes⟩
  case found =>
    intro e es bytes o h hfit
    exact ⟨[], rfl, .found h hfit⟩
  case passed =>
    intro e es bytes o r h hfit ⟨rs, hlog, hs⟩
    exact ⟨rs, hlog, .passed h hfit hs⟩
  case supplied =>
    intro e es bytes o more next r h hfill ⟨rs, hlog, hs⟩
    have hnext := o.fill_log (start.advance (UInt64.ofNat bytes.length)) (e.length - bytes.length)
    rw [hfill] at hnext
    refine ⟨⟨start.advance (UInt64.ofNat bytes.length), e.length - bytes.length, .ok more.val⟩ :: rs, ?_,
      .supplied more.val h more.property hs⟩
    rw [List.reverse_cons, List.append_assoc, hlog]
    exact congrArg (rs.reverse ++ ·) hnext
  case failed =>
    intro e es bytes o failure next h hfill
    have hnext := o.fill_log (start.advance (UInt64.ofNat bytes.length)) (e.length - bytes.length)
    rw [hfill] at hnext
    exact ⟨[⟨start.advance (UInt64.ofNat bytes.length), e.length - bytes.length, .error failure⟩], hnext,
      .failed failure h⟩

/-- Being watched changes nothing. -/
theorem select_observed (es : List Encoding) :
    ∀ (bytes : List UInt8) (o : Observed σ),
      (select bigEndian start es bytes o).result = (select bigEndian start es bytes o.source).result ∧
        (select bigEndian start es bytes o).bytes = (select bigEndian start es bytes o.source).bytes ∧
        (select bigEndian start es bytes o).source.source = (select bigEndian start es bytes o.source).source := by
  apply select_induction
    (P := fun es bytes (o : Observed σ) r => r.result = (select bigEndian start es bytes o.source).result ∧
      r.bytes = (select bigEndian start es bytes o.source).bytes ∧
      r.source.source = (select bigEndian start es bytes o.source).source)
  case exhausted =>
    intro bytes o
    exact ⟨rfl, rfl, rfl⟩
  case found =>
    intro e es bytes o h hfit
    rw [select_of_le o.source h, if_pos hfit]
    exact ⟨rfl, rfl, rfl⟩
  case passed =>
    intro e es bytes o r h hfit hrest
    rw [select_of_le o.source h, hfit, if_neg Bool.false_ne_true]
    exact hrest
  case supplied =>
    intro e es bytes o more next r h hfill hrest
    rw [select_of_lt o.source h, o.fill_source, hfill]
    exact hrest
  case failed =>
    intro e es bytes o failure next h hfill
    rw [select_of_lt o.source h, o.fill_source, hfill]
    exact ⟨rfl, rfl, rfl⟩

end Selecting

/-! ## What holds of every search -/

namespace Search

variable {bigEndian : Bool} {start : Address} {es : List Encoding} {bytes final : List UInt8} {rs : List Request}
  {r : Except DecodeError Instruction}

theorem bytes_eq (h : Search bigEndian start es bytes rs r final) : final = bytes ++ suppliedBytes rs := by
  induction h with
  | exhausted | found | failed => simp [Request.supplied]
  | passed _ _ _ ih => exact ih
  | supplied more _ _ _ ih => rw [ih, suppliedBytes_cons, List.append_assoc]; rfl

/-- Later bytes do not change whether an encoding fits for which there were bytes enough. -/
theorem fitsBytes_final (h : Search bigEndian start es bytes rs r final) {e : Encoding}
    (he : e.length ≤ bytes.length) : e.fitsBytes bigEndian final = e.fitsBytes bigEndian bytes := by
  rw [h.bytes_eq, Encoding.fitsBytes, Encoding.fitsBytes, Encoding.wordOf_append he]

theorem chained (h : Search bigEndian start es bytes rs r final) : Chained start bytes.length rs := by
  induction h with
  | exhausted | found => trivial
  | failed failure hlt => exact ⟨rfl, by simp only; omega, rfl⟩
  | passed _ _ _ ih => exact ih
  | supplied more hlt hmore _ ih =>
    refine ⟨rfl, by simp only; omega, hmore, ?_⟩
    rwa [List.length_append, hmore] at ih

/-! ### The three ways in which a search ends -/

/-- No candidate is left: none of them fits, and bytes were there for the longest. -/
theorem of_noMatch (h : Search bigEndian start es bytes rs r final) {a : UInt64} (hr : r = .error (.noMatch a)) :
    a = start.offset ∧ final.length = max bytes.length (Encoding.longest es) ∧
      ∀ e ∈ es, e.fitsBytes bigEndian final = false := by
  induction h with
  | exhausted bytes => cases hr; simp [Encoding.longest]
  | found => cases hr
  | failed failure => cases failure <;> cases hr
  | @passed e es bytes final rs r hle hfit hs ih =>
    obtain ⟨ha, hlen, hall⟩ := ih hr
    refine ⟨ha, by rw [hlen, Encoding.longest]; omega, fun c hc => ?_⟩
    rcases List.mem_cons.mp hc with rfl | hc
    · rw [hs.fitsBytes_final hle]; exact hfit
    · exact hall c hc
  | @supplied e es bytes final rs r more hlt hmore hs ih =>
    obtain ⟨ha, hlen, hall⟩ := ih hr
    refine ⟨ha, ?_, hall⟩
    rw [hlen, List.length_append, Encoding.longest]
    omega

/-- A candidate is found: the first that matches the bytes in the end. -/
theorem of_ok (h : Search bigEndian start es bytes rs r final) {i : Instruction} (hr : r = .ok i) :
    ∃ e, es.find? (·.matchesBytes bigEndian final) = some e ∧ i = ⟨e, e.wordOf bigEndian final, start.offset⟩ := by
  induction h with
  | exhausted => cases hr
  | @found e es bytes hle hfit =>
    cases hr
    exact ⟨e, List.find?_cons_of_pos (by simp [Encoding.matchesBytes, hle, hfit]), rfl⟩
  | failed failure => cases failure <;> cases hr
  | @passed e es bytes final rs r hle hfit hs ih =>
    obtain ⟨c, hc, hi⟩ := ih hr
    refine ⟨c, ?_, hi⟩
    rw [List.find?_cons_of_neg (by simp [Encoding.matchesBytes, hs.fitsBytes_final hle, hfit])]
    exact hc
  | supplied _ _ _ _ ih => exact ih hr

/-- Shorter candidates come first: no more bytes are read than those that were there or those that the
    one found has. -/
theorem of_ok_ascending (h : Search bigEndian start es bytes rs r final)
    (hsorted : es.Pairwise fun e f => e.length ≤ f.length) {i : Instruction} (hr : r = .ok i) :
    i.encoding ∈ es ∧ final.length = max bytes.length i.length := by
  induction h with
  | exhausted => cases hr
  | @found e es bytes hle hfit =>
    cases hr
    exact ⟨List.mem_cons_self, (Nat.max_eq_left hle).symm⟩
  | failed failure => cases failure <;> cases hr
  | passed _ _ _ ih =>
    obtain ⟨hmem, hlen⟩ := ih (List.pairwise_cons.mp hsorted).2 hr
    exact ⟨List.mem_cons_of_mem _ hmem, hlen⟩
  | @supplied e es bytes final rs r more hlt hmore hs ih =>
    obtain ⟨hmem, hlen⟩ := ih hsorted hr
    have hle : e.length ≤ i.length := by
      rcases List.mem_cons.mp hmem with he | hmem
      · exact Nat.le_of_eq (congrArg Encoding.length he.symm)
      · exact List.rel_of_pairwise_cons hsorted hmem
    refine ⟨hmem, ?_⟩
    rw [hlen, List.length_append, hmore]
    omega

/-- A request failed: it was for the bytes that one more candidate needs, and none before that fits. -/
theorem of_failed (h : Search bigEndian start es bytes rs r final) {q : Request} (hq : q ∈ rs) {failure : SourceFailure}
    (hfail : q.outcome = .error failure) :
    r = .error (failure.error start.offset q.address q.size) ∧ rs.getLast? = some q ∧
      ∃ pre e post, es = pre ++ e :: post ∧ final.length < e.length ∧
        q.address = start.advance (UInt64.ofNat final.length) ∧ q.size = e.length - final.length ∧
        ∀ c ∈ pre, c.length ≤ final.length ∧ c.fitsBytes bigEndian final = false := by
  induction h with
  | exhausted | found => cases hq
  | @failed e es bytes failure' hlt =>
    rw [List.mem_singleton] at hq
    subst hq
    cases hfail
    exact ⟨rfl, rfl, [], e, es, rfl, hlt, rfl, rfl, by simp⟩
  | @passed e es bytes final rs r hle hfit hs ih =>
    obtain ⟨hr, hlast, pre, c, post, rfl, hlt, haddr, hsize, hpre⟩ := ih hq
    refine ⟨hr, hlast, e :: pre, c, post, rfl, hlt, haddr, hsize, fun d hd => ?_⟩
    rcases List.mem_cons.mp hd with rfl | hd
    · have hlen : bytes.length ≤ final.length := by rw [hs.bytes_eq, List.length_append]; omega
      exact ⟨by omega, by rw [hs.fitsBytes_final hle]; exact hfit⟩
    · exact hpre d hd
  | supplied more hlt hmore hs ih =>
    rcases List.mem_cons.mp hq with rfl | hq
    · cases hfail
    · obtain ⟨hr, hlast, rest⟩ := ih hq
      refine ⟨hr, ?_, rest⟩
      rw [List.getLast?_cons, hlast]
      rfl

/-- One of these is how it ends. -/
theorem cases_end (h : Search bigEndian start es bytes rs r final) :
    (∃ i, r = .ok i) ∨ r = .error (.noMatch start.offset) ∨ ∃ q ∈ rs, ∃ failure, q.outcome = .error failure := by
  induction h with
  | exhausted => exact Or.inr (Or.inl rfl)
  | found => exact Or.inl ⟨_, rfl⟩
  | failed failure => exact Or.inr (Or.inr ⟨_, List.mem_singleton.mpr rfl, failure, rfl⟩)
  | passed _ _ _ ih => exact ih
  | supplied _ _ _ _ ih =>
    rcases ih with hok | hno | ⟨q, hq, hfail⟩
    · exact Or.inl hok
    · exact Or.inr (Or.inl hno)
    · exact Or.inr (Or.inr ⟨q, List.mem_cons_of_mem _ hq, hfail⟩)

/-! ### Which way it ends -/

section Ascending

variable (hs : Search bigEndian start es [] rs r final) (hsorted : es.Pairwise fun e f => e.length ≤ f.length)

include hs

theorem final_eq : final = suppliedBytes rs := hs.bytes_eq

include hsorted

/-- A failed request is for the first candidate with more bytes than were supplied; no candidate
    with as many or fewer fits. -/
theorem find?_of_failed {q : Request} (hq : q ∈ rs) {failure : SourceFailure} (hfail : q.outcome = .error failure) :
    es.find? (·.matchesBytes bigEndian final) = none ∧
      ∃ e, es.find? (fun e => decide (final.length < e.length)) = some e ∧
        rs.getLast? = some ⟨start.advance (UInt64.ofNat final.length), e.length - final.length, .error failure⟩ := by
  obtain ⟨-, hlast, pre, e, post, rfl, hlt, haddr, hsize, hpre⟩ := hs.of_failed hq hfail
  rw [List.pairwise_append] at hsorted
  obtain ⟨-, hpost, -⟩ := hsorted
  constructor
  · rw [List.find?_eq_none]
    intro c hc
    rcases List.mem_append.mp hc with hc | hc
    · simp [Encoding.matchesBytes, (hpre c hc).2]
    · have hle : e.length ≤ c.length := by
        rcases List.mem_cons.mp hc with rfl | hc
        · exact Nat.le_refl _
        · exact List.rel_of_pairwise_cons hpost hc
      have hshort : ¬ c.length ≤ final.length := by omega
      simp [Encoding.matchesBytes, hshort]
  · refine ⟨e, ?_, ?_⟩
    · rw [List.find?_append, List.find?_eq_none.mpr, Option.none_or]
      · exact List.find?_cons_of_pos (by simpa using hlt)
      · intro c hc
        have := (hpre c hc).1
        simp only [decide_eq_true_eq]
        omega
    · rw [hlast, ← haddr, ← hsize, ← hfail]

/-- The bytes that were needed in order to find an instruction are its own. -/
theorem length_of_ok {i : Instruction} (hr : r = .ok i) : final.length = i.length := by
  simpa using (hs.of_ok_ascending hsorted hr).2

theorem ok_iff (i : Instruction) :
    r = .ok i ↔ ∃ e, es.find? (·.matchesBytes bigEndian final) = some e ∧
      i = ⟨e, e.wordOf bigEndian final, start.offset⟩ := by
  refine ⟨hs.of_ok, ?_⟩
  rintro ⟨e, he, rfl⟩
  rcases hs.cases_end with ⟨i, hi⟩ | hno | ⟨q, hq, failure, hfail⟩
  · obtain ⟨e', he', rfl⟩ := hs.of_ok hi
    rw [he] at he'
    cases he'
    exact hi
  · have hmatch := List.find?_some he
    simp [Encoding.matchesBytes, (hs.of_noMatch hno).2.2 e (List.mem_of_find?_eq_some he)] at hmatch
  · rw [(hs.find?_of_failed hsorted hq hfail).1] at he
    cases he

theorem noMatch_iff :
    (∃ a, r = .error (.noMatch a)) ↔
      final.length = Encoding.longest es ∧ ∀ e ∈ es, e.fitsBytes bigEndian final = false := by
  constructor
  · rintro ⟨a, hr⟩
    obtain ⟨-, hlen, hall⟩ := hs.of_noMatch hr
    exact ⟨by simpa using hlen, hall⟩
  · rintro ⟨hlen, hall⟩
    rcases hs.cases_end with ⟨i, hi⟩ | hno | ⟨q, hq, failure, hfail⟩
    · obtain ⟨e, he, -⟩ := hs.of_ok hi
      have hmatch := List.find?_some he
      simp [Encoding.matchesBytes, hall e (List.mem_of_find?_eq_some he)] at hmatch
    · exact ⟨_, hno⟩
    · obtain ⟨-, e, he, -⟩ := hs.find?_of_failed hsorted hq hfail
      have hlt := List.find?_some he
      have hle := Encoding.le_longest e (List.mem_of_find?_eq_some he)
      simp only [decide_eq_true_eq] at hlt
      omega

end Ascending

/-- A search that fails found no candidate that fits, or reports a request that failed. -/
theorem of_error (h : Search bigEndian start es bytes rs r final) {err : DecodeError} (hr : r = .error err) :
    err = .noMatch start.offset ∨
      ∃ q ∈ rs, ∃ failure, q.outcome = .error failure ∧ err = failure.error start.offset q.address q.size := by
  subst hr
  rcases h.cases_end with ⟨i, hi⟩ | hno | ⟨q, hq, failure, hfail⟩
  · cases hi
  · cases hno; exact Or.inl rfl
  · have hr := (h.of_failed hq hfail).1
    cases hr
    exact Or.inr ⟨q, hq, failure, hfail, rfl⟩

/-- A search is not about whether the offset is in place. -/
theorem ne_outOfSpace (h : Search bigEndian start es bytes rs r final) (a : UInt64) (space : String) :
    r ≠ .error (.outOfSpace a space) := by
  intro hr
  rcases h.of_error hr with hno | ⟨q, -, failure, -, herr⟩
  · cases hno
  · cases failure <;> cases herr

theorem ne_misaligned (h : Search bigEndian start es bytes rs r final) (a : UInt64) (n : Nat) :
    r ≠ .error (.misaligned a n) := by
  intro hr
  rcases h.of_error hr with hno | ⟨q, -, failure, -, herr⟩
  · cases hno
  · cases failure <;> cases herr

theorem byteSource_iff (h : Search bigEndian start es bytes rs r final) (a : UInt64) (n : Nat) (cause : SourceError) :
    r = .error (.byteSource a n cause) ↔
      ∃ q ∈ rs, q.outcome = .error (.refused cause) ∧ q.address.offset = a ∧ q.size = n := by
  constructor
  · intro hr
    rcases h.of_error hr with hno | ⟨q, hq, failure, hfail, herr⟩
    · cases hno
    · cases failure <;> cases herr
      exact ⟨q, hq, hfail, rfl, rfl⟩
  · rintro ⟨q, hq, hfail, rfl, rfl⟩
    exact (h.of_failed hq hfail).1

theorem callbackFault_iff (h : Search bigEndian start es bytes rs r final) (a : UInt64) (message : String) :
    r = .error (.callbackFault a message) ↔
      a = start.offset ∧ ∃ q ∈ rs, ∃ fault, q.outcome = .error (.broke fault) ∧ fault.message = message := by
  constructor
  · intro hr
    rcases h.of_error hr with hno | ⟨q, hq, failure, hfail, herr⟩
    · cases hno
    · cases failure <;> cases herr
      exact ⟨rfl, q, hq, _, hfail, rfl⟩
  · rintro ⟨rfl, q, hq, fault, hfail, rfl⟩
    exact (h.of_failed hq hfail).1

end Search

/-! ## The search of one call -/

/-- The offset is one that the code space has, and aligned. -/
def Language.InPlace (l : Language) (offset : UInt64) : Prop :=
  offset ≤ l.codeSpace.highest ∧ offset.toNat % l.alignment = 0

namespace Engine

variable {σ : Type}

/-- The encodings that the context at `offset` admits, in order. -/
def candidates (e : Engine σ) (offset : UInt64) : List Encoding :=
  e.language.encodings.filter (·.isAdmitted e.context (e.language.codeAddress offset))

variable [ByteSource σ]

theorem fetch_outOfSpace (e : Engine σ) {offset : UInt64} (h : e.language.codeSpace.highest < offset) :
    e.fetch offset = ⟨.error (.outOfSpace offset e.language.codeSpace.name), [], e.source⟩ := by
  simp only [fetch, h, if_true]

theorem fetch_misaligned (e : Engine σ) {offset : UInt64} (h : offset ≤ e.language.codeSpace.highest)
    (ha : offset.toNat % e.language.alignment ≠ 0) :
    e.fetch offset = ⟨.error (.misaligned offset e.language.alignment), [], e.source⟩ := by
  have hn : ¬ e.language.codeSpace.highest < offset := UInt64.not_lt.mpr h
  simp only [fetch, hn, ha, if_false, ne_eq, not_false_eq_true, if_true]

theorem fetch_inPlace (e : Engine σ) {offset : UInt64} (h : e.language.InPlace offset) :
    e.fetch offset =
      select e.language.bigEndian (e.language.codeAddress offset) (e.candidates offset) [] e.source := by
  have hn : ¬ e.language.codeSpace.highest < offset := UInt64.not_lt.mpr h.1
  simp only [fetch, hn, h.2, if_false, ne_eq, not_true_eq_false]
  rfl

/-- An offset is outside the space, misaligned or in place. -/
theorem inPlace_cases (l : Language) (offset : UInt64) :
    l.codeSpace.highest < offset ∨ (offset ≤ l.codeSpace.highest ∧ offset.toNat % l.alignment ≠ 0) ∨
      l.InPlace offset := by
  by_cases h : l.codeSpace.highest < offset
  · exact Or.inl h
  · by_cases ha : offset.toNat % l.alignment = 0
    · exact Or.inr (Or.inr ⟨UInt64.not_lt.mp h, ha⟩)
    · exact Or.inr (Or.inl ⟨UInt64.not_lt.mp h, ha⟩)

/-- In place, the address of an offset has that offset. -/
theorem offset_codeAddress {l : Language} {offset : UInt64} (h : l.InPlace offset) :
    (l.codeAddress offset).offset = offset := Space.wrap_of_le h.1

/-- An address in place, further on. -/
theorem advance_codeAddress {l : Language} {offset : UInt64} (h : l.InPlace offset) (n : UInt64) :
    (l.codeAddress offset).advance n = l.codeAddress (offset + n) := by
  rw [Address.advance, offset_codeAddress h]
  rfl

/-- In place, a call's requests, result and bytes are those of a `Search`. -/
theorem fetch_search (e : Engine σ) {offset : UInt64} (h : e.language.InPlace offset) :
    Search e.language.bigEndian (e.language.codeAddress offset) (e.candidates offset) []
      (e.observed.fetch offset).source.requests (e.observed.fetch offset).result (e.observed.fetch offset).bytes := by
  have hobs : e.observed.fetch offset = select e.language.bigEndian (e.language.codeAddress offset)
      (e.candidates offset) [] (Observed.ofSource e.source) := fetch_inPlace e.observed h
  obtain ⟨rs, hlog, hs⟩ := @select_search σ _ e.language.bigEndian (e.language.codeAddress offset)
    (e.candidates offset) [] (Observed.ofSource e.source)
  have hrs : (e.observed.fetch offset).source.requests = rs := by
    rw [hobs, Observed.requests, hlog]
    simp [Observed.ofSource]
  rw [hrs, hobs]
  exact hs

/-- A call outside the space or out of line asks for nothing. -/
theorem requests_of_not_inPlace (e : Engine σ) {offset : UInt64} (h : ¬ e.language.InPlace offset) :
    (e.observed.fetch offset).source.requests = [] := by
  rcases inPlace_cases e.language offset with hout | ⟨hle, ha⟩ | hin
  · rw [fetch_outOfSpace e.observed hout]; rfl
  · rw [fetch_misaligned e.observed hle ha]; rfl
  · exact absurd hin h

/-- Being watched changes neither the result nor the bytes nor the source itself. -/
theorem fetch_observed (e : Engine σ) (offset : UInt64) :
    (e.observed.fetch offset).result = (e.fetch offset).result ∧
      (e.observed.fetch offset).bytes = (e.fetch offset).bytes ∧
      (e.observed.fetch offset).source.source = (e.fetch offset).source := by
  rcases inPlace_cases e.language offset with h | ⟨h, ha⟩ | h
  · rw [fetch_outOfSpace e h, fetch_outOfSpace e.observed h]
    exact ⟨rfl, rfl, rfl⟩
  · rw [fetch_misaligned e h ha, fetch_misaligned e.observed h ha]
    exact ⟨rfl, rfl, rfl⟩
  · rw [fetch_inPlace e h, fetch_inPlace e.observed h]
    exact select_observed _ _ _

/-- An instruction that is found starts at the offset, and is one of the candidates. -/
theorem fetch_ok (e : Engine σ) {offset : UInt64} {i : Instruction} (h : (e.fetch offset).result = .ok i) :
    e.language.InPlace offset ∧ i.start = offset ∧ i.encoding ∈ e.candidates offset := by
  rcases inPlace_cases e.language offset with hout | ⟨hle, ha⟩ | hin
  · rw [fetch_outOfSpace e hout] at h; cases h
  · rw [fetch_misaligned e hle ha] at h; cases h
  · rw [← (e.fetch_observed offset).1] at h
    obtain ⟨c, hc, rfl⟩ := (e.fetch_search hin).of_ok h
    exact ⟨hin, offset_codeAddress hin, List.mem_of_find?_eq_some hc⟩

theorem fetch_declared (e : Engine σ) {offset : UInt64} {i : Instruction} (h : (e.fetch offset).result = .ok i) :
    i.encoding ∈ e.language.encodings := List.mem_of_mem_filter (e.fetch_ok h).2.2

theorem not_inPlace_of_outOfSpace (e : Engine σ) {offset a : UInt64} {space : String}
    (h : (e.fetch offset).result = .error (.outOfSpace a space)) : ¬ e.language.InPlace offset := by
  intro hin
  rw [← (e.fetch_observed offset).1] at h
  exact (e.fetch_search hin).ne_outOfSpace a space h

theorem not_inPlace_of_misaligned (e : Engine σ) {offset a : UInt64} {n : Nat}
    (h : (e.fetch offset).result = .error (.misaligned a n)) : ¬ e.language.InPlace offset := by
  intro hin
  rw [← (e.fetch_observed offset).1] at h
  exact (e.fetch_search hin).ne_misaligned a n h

/-- A search ends with a fault where its source broke down, and only there. -/
theorem fetch_callbackFault_iff (e : Engine σ) {offset a : UInt64} {message : String} :
    (e.fetch offset).result = .error (.callbackFault a message) ↔
      a = offset ∧ ∃ q ∈ (e.observed.fetch offset).source.requests, ∃ fault,
        q.outcome = .error (.broke fault) ∧ fault.message = message := by
  rcases inPlace_cases e.language offset with hout | ⟨hle, ha⟩ | hin
  · rw [fetch_outOfSpace e hout, fetch_outOfSpace e.observed hout]
    simp [observed, Observed.requests, Observed.ofSource]
  · rw [fetch_misaligned e hle ha, fetch_misaligned e.observed hle ha]
    simp [observed, Observed.requests, Observed.ofSource]
  · have hs := (e.fetch_search hin).callbackFault_iff a message
    rwa [(e.fetch_observed offset).1, offset_codeAddress hin] at hs

/-- Outside the space or out of line nothing is searched for; otherwise no candidate is left, or a request
    failed. -/
theorem fetch_error (e : Engine σ) {offset : UInt64} {err : DecodeError} (h : (e.fetch offset).result = .error err) :
    (¬ e.language.InPlace offset ∧
        (err = .outOfSpace offset e.language.codeSpace.name ∨ err = .misaligned offset e.language.alignment)) ∨
      (e.language.InPlace offset ∧ (err = .noMatch offset ∨
        ∃ q ∈ (e.observed.fetch offset).source.requests, ∃ failure, q.outcome = .error failure ∧
          err = failure.error offset q.address q.size)) := by
  rcases inPlace_cases e.language offset with hout | ⟨hle, ha⟩ | hin
  · rw [fetch_outOfSpace e hout] at h
    cases h
    exact .inl ⟨fun hin => UInt64.not_le.mpr hout hin.1, .inl rfl⟩
  · rw [fetch_misaligned e hle ha] at h
    cases h
    exact .inl ⟨fun hin => ha hin.2, .inr rfl⟩
  · rw [← (e.fetch_observed offset).1] at h
    have hs := (e.fetch_search hin).of_error h
    rw [offset_codeAddress hin] at hs
    exact .inr ⟨hin, hs⟩

end Engine

end Lifter
