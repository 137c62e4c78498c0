/-
  Lifter.Proofs.Appending — one more instruction at the end of a description.

  The description with the new instruction declares the same language but for the
  encodings (`ofElement_withInstruction`), among which the new one comes right behind
  those that are no longer than it (`byLength_append_singleton`). A search goes through
  the first part of a list of candidates as if nothing followed, and on to the rest only
  if nothing in it fits (`select_append`). So a call that finds an instruction no longer
  than the new one finds it alike, with the same requests, whatever the context admits
  (`Engine.append_conservative`).
-/

import Lifter.Proofs.Agreement

namespace Lifter

open Specification

/-! ## The description -/

namespace Element

/-- The elements, of which the first with this name has one more child, at the end. -/
def extendFirst (name : String) (x : Element) : List Element → List Element
  | [] => []
  | e :: es => if e.name == name then { e with children := e.children ++ [x] } :: es else e :: extendFirst name x es

/-- The description with `x` at the end of its instructions. -/
def withInstruction (root x : Element) : Element :=
  { root with children := extendFirst "instructions" x root.children }

variable {name other : String} {root x : Element}

theorem find?_extendFirst (es : List Element) :
    (extendFirst name x es).find? (·.name == name) =
      (es.find? (·.name == name)).map fun e => { e with children := e.children ++ [x] } := by
  induction es with
  | nil => rfl
  | cons e es ih =>
    by_cases h : (e.name == name) = true
    · simp [extendFirst, h]
    · simp [extendFirst, h, ih]

theorem filter_extendFirst_of_ne (h : other ≠ name) (es : List Element) :
    (extendFirst name x es).filter (·.name == other) = es.filter (·.name == other) := by
  induction es with
  | nil => rfl
  | cons e es ih =>
    by_cases he : e.name = name
    · simp [extendFirst, he, Ne.symm h]
    · simp [extendFirst, he, ih, List.filter_cons]

theorem childrenNamed_snoc {e : Element} (h : x.name = name) :
    Element.childrenNamed { e with children := e.children ++ [x] } name = e.childrenNamed name ++ [x] := by
  simp [childrenNamed, h]

theorem childrenNamed_withInstruction (h : other ≠ "instructions") :
    (root.withInstruction x).childrenNamed other = root.childrenNamed other :=
  filter_extendFirst_of_ne h root.children

theorem child?_withInstruction (h : other ≠ "instructions") :
    (root.withInstruction x).child? other = root.child? other := by
  rw [child?, child?, ← List.head?_filter, ← List.head?_filter]
  exact congrArg List.head? (filter_extendFirst_of_ne h root.children)

theorem child?_instructions :
    (root.withInstruction x).child? "instructions" =
      (root.child? "instructions").map fun e => { e with children := e.children ++ [x] } :=
  find?_extendFirst root.children

end Element

/-- The new instruction is the last to be read; of the language, only the encodings change. -/
theorem ofElement_withInstruction {root x : Element} {l l' : Language} (h : Language.ofElement root = .ok l)
    (h' : Language.ofElement (root.withInstruction x) = .ok l') (hx : x.name = "instruction") :
    ∃ declared e, readEncoding l.declarations x = .ok e ∧ l.encodings = byLength declared ∧
      l' = { l with encodings := byLength (declared ++ [e]) } := by
  have hprocessor : readProcessor (root.withInstruction x) = readProcessor root := rfl
  simp only [Language.ofElement, bind_eq_ok, child_eq_ok, pure_eq_ok] at h
  obtain ⟨processor, hread, spacesElement, hspacesElement, declared, hdeclared, codeSpace, hcode, registers, hregisters,
    tables, htables, contextFields, hcontext, instructions, hinstructions, encodings, hencodings, rfl⟩ := h
  simp only [Language.ofElement, bind_eq_ok, child_eq_ok, pure_eq_ok, hprocessor, Element.childrenNamed_withInstruction,
    Element.child?_withInstruction, Element.child?_instructions, ne_eq, String.reduceEq, not_false_eq_true, hread,
    hspacesElement, hdeclared, hcode, hregisters, htables, hcontext, hinstructions, Option.map_some, Except.ok.injEq,
    Option.some.injEq, exists_eq_left'] at h'
  obtain ⟨all, hall, rfl⟩ := h'
  simp only [Element.childrenNamed_snoc hx, List.mapM_append, List.mapM_cons, List.mapM_nil, bind_eq_ok, pure_eq_ok,
    hencodings, Except.ok.injEq, exists_eq_left'] at hall
  obtain ⟨_, ⟨e, he, rfl⟩, rfl⟩ := hall
  exact ⟨encodings, e, he, rfl, rfl⟩

/-! ## The order of the encodings -/

/-- In the order of length, a new encoding comes right behind those that are no longer. -/
theorem byLength_append_singleton (es : List Encoding) {e : Encoding} (hpos : 1 ≤ e.length)
    (hle : e.length ≤ maxInstructionSize) :
    ∃ before behind, byLength es = before ++ behind ∧ byLength (es ++ [e]) = before ++ e :: behind ∧
      ∀ c ∈ behind, e.length < c.length := by
  obtain ⟨shorter, longer, hlengths⟩ : ∃ shorter longer, List.range' 1 maxInstructionSize = shorter ++ e.length :: longer :=
    List.append_of_mem (List.mem_range'_1.mpr ⟨hpos, by omega⟩)
  have hascending : (List.range' 1 maxInstructionSize).Pairwise (· < ·) := List.pairwise_lt_range'
  rw [hlengths, List.pairwise_append, List.pairwise_cons] at hascending
  obtain ⟨-, ⟨hlonger, -⟩, hshorter⟩ := hascending
  -- of the other lengths there are as many as before
  have hother : ∀ ns : List Nat, e.length ∉ ns → (ns.flatMap fun n => (es ++ [e]).filter (·.length == n)) =
      ns.flatMap fun n => es.filter (·.length == n) := by
    intro ns hns
    refine List.flatMap_congr fun n hn => ?_
    have hne : ¬ e.length = n := fun heq => hns (heq ▸ hn)
    simp [hne]
  refine ⟨(shorter.flatMap fun n => es.filter (·.length == n)) ++ es.filter (·.length == e.length),
    longer.flatMap fun n => es.filter (·.length == n), ?_, ?_, fun c hc => ?_⟩
  · rw [byLength, hlengths, List.flatMap_append, List.flatMap_cons, List.append_assoc]
  · rw [byLength, hlengths, List.flatMap_append, List.flatMap_cons, hother shorter, hother longer]
    · simp
    · intro hmem
      exact Nat.lt_irrefl _ (hlonger _ hmem)
    · intro hmem
      exact Nat.lt_irrefl _ (hshorter _ hmem _ List.mem_cons_self)
  · obtain ⟨n, hn, hc⟩ := List.mem_flatMap.mp hc
    rw [List.mem_filter, beq_iff_eq] at hc
    exact hc.2 ▸ hlonger n hn

/-! ## The search -/

/-- What follows a search that found no candidate to fit. -/
def Fetch.orElse {σ : Type} (r : Fetch σ Instruction) (next : List UInt8 → σ → Fetch σ Instruction) :
    Fetch σ Instruction :=
  match r.result with
  | .error (.noMatch _) => next r.bytes r.source
  | _ => r

section Selecting

variable {σ : Type} [ByteSource σ] {bigEndian : Bool} {start : Address}

/-- The rest of the candidates is tried if nothing in the first part fits. -/
theorem select_append (rest es : List Encoding) :
    ∀ bytes (source : σ), select bigEndian start (es ++ rest) bytes source =
      (select bigEndian start es bytes source).orElse (select bigEndian start rest) := by
  apply select_induction
    (P := fun es bytes (source : σ) r => select bigEndian start (es ++ rest) bytes source =
      r.orElse (select bigEndian start rest))
  case exhausted =>
    intro bytes source
    rfl
  case found =>
    intro e es bytes source h hfit
    rw [List.cons_append, select_of_le source h, if_pos hfit]
    rfl
  case passed =>
    intro e es bytes source r h hfit hrest
    rw [List.cons_append, select_of_le source h, hfit, if_neg Bool.false_ne_true]
    exact hrest
  case supplied =>
    intro e es bytes source more next r h hfill hrest
    rw [List.cons_append, select_of_lt source h, hfill]
    exact hrest
  case failed =>
    intro e es bytes source failure next h hfill
    rw [List.cons_append, select_of_lt source h, hfill]
    cases failure <;> rfl

theorem select_mem (es : List Encoding) :
    ∀ bytes (source : σ) i, (select bigEndian start es bytes source).result = .ok i → i.encoding ∈ es := by
  apply select_induction (P := fun es _ (_ : σ) r => ∀ i, r.result = .ok i → i.encoding ∈ es)
  case exhausted =>
    intro bytes source i h
    cases h
  case found =>
    intro e es bytes source _ _ i h
    cases h
    exact List.mem_cons_self
  case passed =>
    intro e es bytes source r _ _ hrest i h
    exact List.mem_cons_of_mem _ (hrest i h)
  case supplied =>
    intro e es bytes source more next r _ _ hrest
    exact hrest
  case failed =>
    intro e es bytes source failure next _ _ i h
    cases h

/-- What is found in the first part is found with another rest, too. -/
theorem select_append_of_ok {es rest : List Encoding} {bytes : List UInt8} {source : σ} {i : Instruction}
    (h : (select bigEndian start (es ++ rest) bytes source).result = .ok i) (hi : i.encoding ∉ rest)
    (rest' : List Encoding) :
    select bigEndian start (es ++ rest') bytes source = select bigEndian start (es ++ rest) bytes source := by
  rw [select_append] at h
  rw [select_append, select_append]
  unfold Fetch.orElse at h ⊢
  split at h
  · exact absurd (select_mem rest _ _ i h) hi
  · rfl

end Selecting

/-! ## Calls -/

namespace Engine

variable {σ τ υ α : Type} [ByteSource σ] {e e' : Engine σ} {offset : UInt64}

/-- What a call does depends on its search only. -/
theorem seenRun_of_fetch (h : e'.fetch offset = e.fetch offset)
    (hobserved : e'.observed.fetch offset = e.observed.fetch offset)
    (explain : Instruction → Except DecodeError (List α)) (sink : Sink α τ) (t : τ) :
    e'.seenRun offset explain sink t = e.seenRun offset explain sink t := by
  have hends := e'.run_ends offset explain sink t
  rw [h] at hends
  obtain ⟨hresult, hused, -⟩ := hends.unique (e.run_ends offset explain sink t)
  have hwatched := e'.observed.run_ends offset explain sink.witnessed (t, [])
  rw [hobserved] at hwatched
  obtain ⟨-, -, hsink⟩ := hwatched.unique (e.observed.run_ends offset explain sink.witnessed (t, []))
  simp only [seenRun, Call.seen, lastBytes, hresult, hused, hsink, run_fetched, run_source, h, hobserved]

/-- The engine with other encodings in its language. -/
def withEncodings (e : Engine σ) (es : List Encoding) : Engine σ :=
  { e with language := { e.language with encodings := es } }

/-- What is found is found with one more encoding as well, if those behind it in the order are longer than the
    instruction. -/
theorem fetch_withEncodings {before behind : List Encoding} {c : Encoding}
    (hencodings : e.language.encodings = before ++ behind) (hbehind : ∀ d ∈ behind, c.length < d.length)
    {i : Instruction} (hfound : (e.fetch offset).result = .ok i) (hle : i.length ≤ c.length) :
    (e.withEncodings (before ++ c :: behind)).fetch offset = e.fetch offset := by
  obtain ⟨hin, -, -⟩ := e.fetch_ok hfound
  have hin' : (e.withEncodings (before ++ c :: behind)).language.InPlace offset := hin
  have hnot : i.encoding ∉ behind := by
    intro hmem
    have hlt : c.length < i.length := hbehind _ hmem
    omega
  rw [fetch_inPlace e hin, candidates, hencodings, List.filter_append] at hfound ⊢
  rw [fetch_inPlace _ hin', candidates]
  simp only [withEncodings, List.filter_append]
  exact select_append_of_ok hfound (fun hmem => hnot (List.mem_of_mem_filter hmem)) _

/-- The length of a call that succeeds is that of the instruction it found. -/
theorem seenRun_length {explain : Instruction → Except DecodeError (List α)} {sink : Sink α τ} {t : τ} {k : Nat}
    (h : (e.seenRun offset explain sink t).result = .ok k) : ∃ i, (e.fetch offset).result = .ok i ∧ i.length = k := by
  obtain ⟨i, -, hfound, -, hlength, -⟩ := (e.run_ends offset explain sink t).of_ok h
  exact ⟨i, hfound, hlength.symm⟩

/-- An instruction of `n` bytes at the end of a description changes nothing of a call that finds one no longer
    than it. -/
theorem append_conservative {root x : Element} {engine : Engine σ} {extended : Language}
    (accepted : Language.ofElement root = .ok engine.language)
    (accepted' : Language.ofElement (root.withInstruction x) = .ok extended) (tag : x.name = "instruction") {n : UInt64}
    (length : number x "length" = .ok n) (offset : UInt64) (ops : Sink MicroOp τ) (t : τ) (lines : Sink AssemblyLine υ)
    (u : υ) {k : Nat}
    (found : (engine.seenDecode offset ops t).result = .ok k ∨ (engine.seenDisassemble offset lines u).result = .ok k)
    (short : k ≤ n.toNat) :
    let engine' : Engine σ := { engine with language := extended }
    extended = { engine.language with encodings := extended.encodings } ∧
      engine'.seenDecode offset ops t = engine.seenDecode offset ops t ∧
      engine'.seenDisassemble offset lines u = engine.seenDisassemble offset lines u := by
  obtain ⟨declared, c, hc, hencodings, rfl⟩ := ofElement_withInstruction accepted accepted' tag
  obtain ⟨hwf, hdescribes⟩ := readEncoding_ok (ofElement_wellFormed accepted).contextFields hc
  obtain ⟨before, behind, hbefore, hafter, hbehind⟩ :=
    byLength_append_singleton declared hwf.length_pos hwf.length_le
  rw [hbefore] at hencodings
  obtain ⟨i, hfound, hi⟩ : ∃ i, (engine.fetch offset).result = .ok i ∧ i.length = k :=
    found.elim seenRun_length seenRun_length
  have hn : n.toNat = c.length := by
    have heq := length.symm.trans hdescribes.length
    cases heq
    have hle := hwf.length_le
    rw [UInt64.toNat_ofNat']
    exact Nat.mod_eq_of_lt (by simp only [maxInstructionSize] at hle; omega)
  have hle : i.length ≤ c.length := by omega
  have hobserved : (engine.observed.fetch offset).result = .ok i := (engine.fetch_observed offset).1.trans hfound
  rw [hafter]
  have hfetch := fetch_withEncodings hencodings hbehind hfound hle
  have hfetch' := fetch_withEncodings (e := engine.observed) hencodings hbehind hobserved hle
  exact ⟨rfl, seenRun_of_fetch hfetch hfetch' _ ops t, seenRun_of_fetch hfetch hfetch' _ lines u⟩

end Engine

namespace Sample

/-- One byte, whatever it is. -/
def anyElement : Element :=
  ⟨"instruction", [("mnemonic", "any"), ("length", "1"), ("mask", "0"), ("match", "0")], "", []⟩

def any : Encoding where
  mnemonic := "any"
  length := 1
  mask := 0
  bits := 0
  constraints := []
  fields := []
  operands := []
  ops := []

def languageWithAny : Language := { language with encodings := [inc, any, jump] }

theorem any_accepted : Language.ofElement (root.withInstruction anyElement) = .ok languageWithAny := by rfl

end Sample

/-- `inc` is tried before `any`, which fits wherever it does. -/
theorem Engine.append_conservative_any :
    let engine := Engine.ofLanguage (⟨0, [0x11]⟩ : FlatImage) Sample.language
    let engine' : Engine FlatImage := { engine with language := Sample.languageWithAny }
    Language.ofElement Sample.root = .ok engine.language ∧
      Language.ofElement (Sample.root.withInstruction Sample.anyElement) = .ok Sample.languageWithAny ∧
      Sample.anyElement.name = "instruction" ∧ number Sample.anyElement "length" = .ok 1 ∧
      (engine.seenDecode 0 Sink.ops .empty).result = .ok 1 ∧ 1 ≤ (1 : UInt64).toNat ∧
      Sample.languageWithAny = { engine.language with encodings := Sample.languageWithAny.encodings } ∧
      engine'.seenDecode 0 Sink.ops .empty = engine.seenDecode 0 Sink.ops .empty ∧
      engine'.seenDisassemble 0 Sink.lines .empty = engine.seenDisassemble 0 Sink.lines .empty :=
  ⟨Sample.accepted, Sample.any_accepted, rfl, by rfl, by rfl, by decide,
    Engine.append_conservative Sample.accepted Sample.any_accepted rfl (by rfl) 0 _ _ _ _ (.inl (by rfl)) (by decide)⟩

end Lifter
