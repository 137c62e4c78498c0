/-
  Lifter.Proofs.Agreement — decoding and disassembling the same place.

  Over a source that only reads, as images are, the two calls at one offset ask for the
  same bytes and find the same instruction, or fail alike (`Agreement`). What they make
  of the instruction differs: one resolves the fields in its micro-operations, the other
  those in its text, and each fails exactly over a field of its own whose value selects
  no register (`ResolvesFields`). So a field over which only one of them fails plays no
  part in the other. `decode_disassemble_agree` says it of every accepted language, and
  of the calls that read the context by position, if it has the fields of the language.
-/

import Lifter.Image.Segmented
import Lifter.Proofs.NoBreach
import Mathlib.Data.List.Nodup

namespace Lifter

open Specification

/-! ## Sources that only read -/

/-- No request changes the source, and it breaks down on none. -/
class ReadOnly (σ : Type) [ByteSource σ] : Prop where
  unchanged (source : σ) (a : Address) (n : Nat) : (ByteSource.fill source a n).2 = source
  unbroken (source : σ) (a : Address) (n : Nat) (fault : Fault) :
    (ByteSource.fill source a n).1 ≠ .error (.broke fault)

theorem ofRead_ne_broke {σ : Type} (read : σ → UInt64 → (n : Nat) → Except SourceError (Bytes n)) (source : σ)
    (a : Address) (n : Nat) (fault : Fault) : (ByteSource.ofRead read source a n).1 ≠ .error (.broke fault) := by
  unfold ByteSource.ofRead
  cases read source a.offset n with
  | ok => intro h; cases h
  | error => intro h; cases h

instance : ReadOnly FlatImage where
  unchanged _ _ _ := rfl
  unbroken source a n fault := ofRead_ne_broke FlatImage.read source a n fault

instance : ReadOnly SegmentedImage where
  unchanged _ _ _ := rfl
  unbroken source a n fault := ofRead_ne_broke SegmentedImage.read source a n fault

/-- The errors of a search, about the offset and the bytes there. -/
def DecodeError.OfSearch : DecodeError → Prop
  | .outOfSpace _ _ | .misaligned _ _ | .byteSource _ _ _ | .noMatch _ => True
  | .invalidOperand _ _ _ | .callbackFault _ _ => False

section Reading

variable {σ : Type} [ByteSource σ] [ReadOnly σ]

theorem select_readOnly {bigEndian : Bool} {start : Address} (es : List Encoding) :
    ∀ (bytes : List UInt8) (source : σ),
      (select bigEndian start es bytes source).source = source ∧
        ∀ err, (select bigEndian start es bytes source).result = .error err → err.OfSearch := by
  apply select_induction
    (P := fun _ _ source r => r.source = source ∧ ∀ err, r.result = .error err → err.OfSearch)
  case exhausted =>
    intro bytes source
    refine ⟨rfl, fun err h => ?_⟩
    cases h
    trivial
  case found =>
    intro e es bytes source _ _
    refine ⟨rfl, fun err h => ?_⟩
    cases h
  case passed =>
    intro e es bytes source r _ _ hrest
    exact hrest
  case supplied =>
    intro e es bytes source more next r _ hfill hrest
    have hsame := ReadOnly.unchanged source (start.advance (UInt64.ofNat bytes.length)) (e.length - bytes.length)
    rw [hfill] at hsame
    exact ⟨hrest.1.trans hsame, hrest.2⟩
  case failed =>
    intro e es bytes source failure next _ hfill
    have hsame := ReadOnly.unchanged source (start.advance (UInt64.ofNat bytes.length)) (e.length - bytes.length)
    have hsound := ReadOnly.unbroken source (start.advance (UInt64.ofNat bytes.length)) (e.length - bytes.length)
    rw [hfill] at hsame hsound
    refine ⟨hsame, fun err herr => ?_⟩
    cases failure with
    | refused cause => cases herr; trivial
    | broke fault => exact absurd rfl (hsound fault)

namespace Engine

/-- A call leaves such a source as it was. -/
theorem fetch_source (e : Engine σ) (offset : UInt64) : (e.fetch offset).source = e.source := by
  rcases inPlace_cases e.language offset with h | ⟨h, ha⟩ | h
  · rw [fetch_outOfSpace e h]
  · rw [fetch_misaligned e h ha]
  · rw [fetch_inPlace e h]
    exact (select_readOnly _ _ _).1

theorem fetch_error_ofSearch (e : Engine σ) {offset : UInt64} {err : DecodeError}
    (herr : (e.fetch offset).result = .error err) : err.OfSearch := by
  rcases inPlace_cases e.language offset with h | ⟨h, ha⟩ | h
  · rw [fetch_outOfSpace e h] at herr
    cases herr
    trivial
  · rw [fetch_misaligned e h ha] at herr
    cases herr
    trivial
  · rw [fetch_inPlace e h] at herr
    exact (select_readOnly _ _ _).2 err herr

end Engine

end Reading

/-! ## Fields that a call resolves -/

/-- What `explain` makes of an instruction fails over one of these fields, whenever one of them selects
    nothing, and over nothing else. -/
structure ResolvesFields {α : Type} (i : Instruction) (explain : Instruction → Except DecodeError (List α))
    (fields : List OperandField) : Prop where
  error : ∀ err, explain i = .error err → ∃ f ∈ fields, i.SelectsNothing f ∧ err = i.reservedError f
  ok : ∀ records, explain i = .ok records → ∀ f ∈ fields, ¬ i.SelectsNothing f

theorem FailsOver.resolves {α : Type} {i : Instruction} {explain : Instruction → Except DecodeError (List α)}
    {fields : List OperandField} (h : FailsOver i fields (explain i)) : ResolvesFields i explain fields := by
  refine ⟨fun err herror => ?_, fun records hok f hf hnothing => ?_⟩
  · obtain ⟨f, hf, herr⟩ := (h err).mp herror
    exact ⟨f, List.mem_of_find?_eq_some hf, Instruction.lacksRegister_iff.mp (List.find?_some hf), herr⟩
  · have hnone := List.find?_eq_none.mp (h.none_of_ok hok) f hf
    exact hnone (Instruction.lacksRegister_iff.mpr hnothing)

namespace Instruction

theorem microOps_resolves (l : Language) (i : Instruction) :
    ResolvesFields i (Engine.microOps l) i.encoding.opFields := (Engine.microOps_failsOver i l).resolves

theorem assembly_resolves (l : Language) (i : Instruction) :
    ResolvesFields i (Engine.assembly l) i.encoding.printedFields := (Engine.assembly_failsOver i l).resolves

end Instruction

/-! ### They are fields of the encoding -/

namespace Encoding.WellFormed

variable {d : Declarations} {e : Encoding}

theorem opFields_mem (h : e.WellFormed d) : ∀ f ∈ e.opFields, f ∈ e.fields := by
  intro f hf
  obtain ⟨t, ht, hf⟩ := List.mem_flatMap.mp hf
  obtain ⟨o, ho, hf⟩ := List.mem_filterMap.mp hf
  have hdeclared : o.Declared d e.fields := by
    rcases List.mem_append.mp ho with ho | ho
    · exact ((h.ops t ht).output o (Option.mem_toList.mp ho)).1
    · exact (h.ops t ht).inputs o ho
  cases o with
  | field g =>
    cases hf
    exact hdeclared
  | register | constant | temporary | spaceNumber | start | next => cases hf

theorem printedFields_mem (h : e.WellFormed d) : ∀ f ∈ e.printedFields, f ∈ e.fields := by
  intro f hf
  obtain ⟨p, hp, hf⟩ := List.mem_filterMap.mp hf
  have hdeclared := h.operands p hp
  cases p with
  | literal text => cases hf
  | field g =>
    cases hf
    exact hdeclared

/-- A field is known by its name. -/
theorem field_ext (h : e.WellFormed d) {f g : OperandField} (hf : f ∈ e.fields) (hg : g ∈ e.fields)
    (hname : f.name = g.name) : f = g :=
  List.inj_on_of_nodup_map h.fields.distinct hf hg hname

end Encoding.WellFormed

/-! ## What is seen of a call -/

/-- The result of a call, the latest bytes after it, its requests, and what it handed over. -/
structure Seen (α : Type) where
  result : Except DecodeError Nat
  lastBytes : List UInt8
  requests : List Request
  receipts : List (Receipt α)

/-- A call, of which the requests and receipts are those of the same call watched. -/
def Call.seen {σ τ α : Type} (call : Call σ τ) (watched : Call (Observed σ) (τ × List (Receipt α))) : Seen α :=
  ⟨call.result, call.engine.lastBytes, watched.engine.source.requests, watched.sink.2⟩

namespace Engine

variable {σ τ α : Type} [ByteSource σ]

def seenRun (e : Engine σ) (offset : UInt64) (explain : Instruction → Except DecodeError (List α)) (sink : Sink α τ)
    (t : τ) : Seen α :=
  (e.run offset explain sink t).seen (e.observed.run offset explain sink.witnessed (t, []))

/-- What is seen of decoding. -/
def seenDecode (e : Engine σ) (offset : UInt64) (sink : Sink MicroOp τ) (t : τ) : Seen MicroOp :=
  (e.decode offset sink t).seen (e.observed.decode offset sink.witnessed (t, []))

/-- What is seen of disassembling. -/
def seenDisassemble (e : Engine σ) (offset : UInt64) (sink : Sink AssemblyLine τ) (t : τ) : Seen AssemblyLine :=
  (e.disassemble offset sink t).seen (e.observed.disassemble offset sink.witnessed (t, []))

end Engine

/-- A sink that takes every record. -/
def Sink.NeverBreaks {α τ : Type} (sink : Sink α τ) : Prop := ∀ t a, (sink.accept t a).1 = none

theorem Sink.deliver_neverBreaks {α τ : Type} {sink : Sink α τ} (h : sink.NeverBreaks) (as : List α) :
    ∀ t, (sink.deliver as t).1 = none := by
  induction as with
  | nil => intro t; rfl
  | cons a as ih =>
    intro t
    rcases haccept : sink.accept t a with ⟨_ | fault, next⟩
    · simp only [deliver, haccept]
      exact ih next
    · have hnone := h t a
      rw [haccept] at hnone
      cases hnone

theorem Sink.recording_neverBreaks {α β : Type} (copy : α → β) : (Sink.recording copy).NeverBreaks := by
  intro t a
  rfl

/-! ## Agreement -/

/-- A call that found `i`: it hands over what `explain` makes of it, or fails over one of the fields. -/
structure Explained {α : Type} (i : Instruction) (explain : Instruction → Except DecodeError (List α))
    (fields : List OperandField) (seen : Seen α) : Prop where
  ok : ∀ n, seen.result = .ok n → n = i.length ∧ explain i = .ok (seen.receipts.map (·.record))
  error : ∀ err, seen.result = .error err →
    seen.receipts = [] ∧ ∃ f ∈ fields, i.SelectsNothing f ∧ err = i.reservedError f

/-- Both calls found the instruction `i` at `offset`. -/
structure BothFound (l : Language) (offset : UInt64) (i : Instruction) (decoded : Seen MicroOp)
    (shown : Seen AssemblyLine) : Prop where
  declared : i.encoding ∈ l.encodings
  start : i.start = offset
  explainsOps : Explained i (Engine.microOps l) i.encoding.opFields decoded
  explainsLine : Explained i (Engine.assembly l) i.encoding.printedFields shown
  succeed : ∀ n m, decoded.result = .ok n → shown.result = .ok m → n = m ∧ decoded.lastBytes = shown.lastBytes
  /-- A field over which only decoding fails is not printed. -/
  onlyShown : ∀ a field value n, decoded.result = .error (.invalidOperand a field value) → shown.result = .ok n →
    ∀ f ∈ i.encoding.printedFields, f.name ≠ field
  /-- A field over which only disassembling fails is in no micro-operation. -/
  onlyDecoded : ∀ a field value n, shown.result = .error (.invalidOperand a field value) → decoded.result = .ok n →
    ∀ f ∈ i.encoding.opFields, f.name ≠ field

/-- Decoding and disassembling at `offset` ask for the same bytes, and fail in the search alike or find
    the same instruction. -/
structure Agreement (l : Language) (offset : UInt64) (decoded : Seen MicroOp) (shown : Seen AssemblyLine) : Prop where
  requests : decoded.requests = shown.requests
  outcome : (∃ err, err.OfSearch ∧ decoded.result = .error err ∧ shown.result = .error err) ∨
    ∃ i, BothFound l offset i decoded shown

/-- What one call fails over and the other does not is no field of the other. -/
theorem ne_of_explained {α β : Type} {d : Declarations} {i : Instruction} (he : i.encoding.WellFormed d)
    {explain : Instruction → Except DecodeError (List α)} {other : Instruction → Except DecodeError (List β)}
    {fields otherFields : List OperandField} {seen : Seen α} {seen' : Seen β} (h : Explained i explain fields seen)
    (h' : Explained i other otherFields seen') (hresolves : ResolvesFields i other otherFields)
    (hfields : ∀ f ∈ fields, f ∈ i.encoding.fields) (hothers : ∀ f ∈ otherFields, f ∈ i.encoding.fields)
    {a value : UInt64} {field : String} {n : Nat} (hfail : seen.result = .error (.invalidOperand a field value))
    (hok : seen'.result = .ok n) : ∀ g ∈ otherFields, g.name ≠ field := by
  intro g hg hname
  obtain ⟨-, f, hf, hnothing, herr⟩ := h.error _ hfail
  cases herr
  have hgf : g = f := he.field_ext (hothers g hg) (hfields f hf) hname
  subst hgf
  exact hresolves.ok _ (h'.ok n hok).2 g hg hnothing

namespace Engine

variable {σ τ α : Type} [ByteSource σ] {e : Engine σ} {offset : UInt64}

theorem seenRun_requests (explain : Instruction → Except DecodeError (List α)) (sink : Sink α τ) (t : τ) :
    (e.seenRun offset explain sink t).requests = (e.observed.fetch offset).source.requests :=
  e.requests_run offset explain sink.witnessed (t, [])

/-- A call whose search fails, fails with it. -/
theorem seenRun_of_error {err : DecodeError} (h : (e.fetch offset).result = .error err)
    (explain : Instruction → Except DecodeError (List α)) (sink : Sink α τ) (t : τ) :
    (e.seenRun offset explain sink t).result = .error err :=
  ((e.run_ends offset explain sink t).unique (.notFound h)).1

/-- Where an instruction is found, a sink that takes every record is given all of them, or none. -/
theorem seenRun_explained {i : Instruction} (h : (e.fetch offset).result = .ok i)
    {explain : Instruction → Except DecodeError (List α)} {fields : List OperandField}
    (hresolves : ResolvesFields i explain fields) {sink : Sink α τ} (hsink : sink.NeverBreaks) (t : τ) :
    Explained i explain fields (e.seenRun offset explain sink t) := by
  have hends := (e.run_ends_observed offset explain sink.witnessed (t, [])).of_witnessed
  have hresult : (e.seenRun offset explain sink t).result =
      (e.observed.run offset explain sink.witnessed (t, [])).result := (e.run_watched offset explain sink t).symm
  rcases hends.2 with ⟨hnone, err, hr, hf | ⟨j, hf, he⟩⟩ | ⟨j, records, outcome, hf, he, hdelivered, hr⟩
  · rw [h] at hf
    cases hf
  · rw [h] at hf
    cases hf
    refine ⟨fun n hn => ?_, fun err' herr => ⟨hnone, ?_⟩⟩
    · rw [hresult, hr] at hn
      cases hn
    · rw [hresult, hr] at herr
      cases herr
      exact hresolves.error _ he
  · rw [h] at hf
    cases hf
    have hnone : outcome = none := by
      cases outcome with
      | none => rfl
      | some fault =>
        have hends' := (e.run_ends offset explain sink t).unique
          (.handedOver h he (Sink.deliver_neverBreaks hsink records t))
        rw [← e.run_watched offset explain sink t, hr] at hends'
        cases hends'.1
    subst hnone
    refine ⟨fun n hn => ?_, fun err herr => ?_⟩
    · rw [hresult, hr] at hn
      cases hn
      exact ⟨rfl, by rw [he]; exact congrArg _ (hdelivered.of_none rfl).1.symm⟩
    · rw [hresult, hr] at herr
      cases herr

/-- The latest bytes after a call that succeeds. -/
theorem seenRun_lastBytes {i : Instruction} (h : (e.fetch offset).result = .ok i)
    {explain : Instruction → Except DecodeError (List α)} {sink : Sink α τ} {t : τ} {n : Nat}
    (hok : (e.seenRun offset explain sink t).result = .ok n) :
    (e.seenRun offset explain sink t).lastBytes = (e.fetch offset).bytes.take i.length := by
  obtain ⟨j, records, hf, -, -, hused⟩ := (e.run_ends offset explain sink t).of_ok hok
  rw [h] at hf
  cases hf
  show (e.run offset explain sink t).engine.lastBytes = _
  rw [lastBytes, hused, run_fetched]

/-- On every accepted language, over a source that only reads, decoding and disassembling agree; and where the
    context has the fields of the language, both may read it by position. -/
theorem decode_disassemble_agree [ReadOnly σ] {root : Element} (engine : Engine σ) (offset : UInt64)
    (accepted : Language.ofElement root = .ok engine.language) {υ : Type} (ops : Sink MicroOp τ)
    (lines : Sink AssemblyLine υ) (hops : ops.NeverBreaks) (hlines : lines.NeverBreaks) (t : τ) (u : υ) :
    Agreement engine.language offset (engine.seenDecode offset ops t) (engine.seenDisassemble offset lines u) ∧
      (engine.context.names = engine.language.contextFields.map (·.name) → engine.ReadsByPosition offset) := by
  have hw := ofElement_wellFormed accepted
  refine ⟨⟨(seenRun_requests _ _ _).trans (seenRun_requests _ _ _).symm, ?_⟩, readsByPosition hw⟩
  rcases hfound : (engine.fetch offset).result with err | i
  · exact .inl ⟨err, engine.fetch_error_ofSearch hfound, seenRun_of_error hfound _ _ _,
      seenRun_of_error hfound _ _ _⟩
  · obtain ⟨-, hstart, hcandidate⟩ := engine.fetch_ok hfound
    have hdeclared : i.encoding ∈ engine.language.encodings := (List.mem_filter.mp hcandidate).1
    have he := hw.encodings _ hdeclared
    have hdecoded := seenRun_explained hfound (Instruction.microOps_resolves engine.language i) hops t
    have hshown := seenRun_explained hfound (Instruction.assembly_resolves engine.language i) hlines u
    refine .inr ⟨i, hdeclared, hstart, hdecoded, hshown, fun n m hn hm => ⟨?_, ?_⟩, ?_, ?_⟩
    · rw [(hdecoded.ok n hn).1, (hshown.ok m hm).1]
    · exact (seenRun_lastBytes hfound hn).trans (seenRun_lastBytes hfound hm).symm
    · exact fun a field value n hfail hok => ne_of_explained he hdecoded hshown
        (Instruction.assembly_resolves engine.language i) he.opFields_mem he.printedFields_mem hfail hok
    · exact fun a field value n hfail hok => ne_of_explained he hshown hdecoded
        (Instruction.microOps_resolves engine.language i) he.printedFields_mem he.opFields_mem hfail hok

end Engine

namespace Sample

/-- The small description with this instruction only, and no context. -/
def rootWith (instruction : Element) : Element :=
  { root with children := root.children.take 3 ++ [⟨"instructions", [], "", [instruction]⟩] }

def languageWith (e : Encoding) : Language := { language with contextFields := [], encodings := [e] }

/-- An instruction that prints a register but does nothing with it. -/
def hint : Encoding :=
  { inc with mnemonic := "hint", ops := [⟨.copy, some (.temporary 0 1), [.constant 1 1]⟩] }

def hintElement : Element :=
  ⟨"instruction", [("mnemonic", "hint"), ("length", "1"), ("mask", "0xfc"), ("match", "0x10"), ("operands", "{r}")], "",
    [leaf "field" [("name", "r"), ("lsb", "0"), ("width", "2"), ("kind", "register"), ("table", "ab")],
      leaf "op" [("code", "COPY"), ("out", "$0:1"), ("in", "#1:1")]]⟩

theorem hint_accepted : Language.ofElement (rootWith hintElement) = .ok (languageWith hint) := by rfl

end Sample

/-- Of a register that is reserved, `hint` cannot be printed, but can be decoded. -/
theorem Engine.decode_disassemble_agree_hint :
    let engine := Engine.ofLanguage (⟨0, [0x12]⟩ : FlatImage) (Sample.languageWith Sample.hint)
    Language.ofElement (Sample.rootWith Sample.hintElement) = .ok engine.language ∧
      (engine.decode 0 Sink.ops .empty).result = .ok 1 ∧
      (engine.disassemble 0 Sink.lines .empty).result = .error (.invalidOperand 0 "r" 2) ∧
      Sink.ops.NeverBreaks ∧ Sink.lines.NeverBreaks ∧
      Agreement engine.language 0 (engine.seenDecode 0 Sink.ops .empty)
        (engine.seenDisassemble 0 Sink.lines .empty) ∧
      engine.ReadsByPosition 0 := by
  have hops : Sink.ops.NeverBreaks := Sink.recording_neverBreaks _
  have hlines : Sink.lines.NeverBreaks := Sink.recording_neverBreaks _
  obtain ⟨hagree, hreads⟩ := Engine.decode_disassemble_agree
    (Engine.ofLanguage (⟨0, [0x12]⟩ : FlatImage) (Sample.languageWith Sample.hint)) 0 Sample.hint_accepted
    Sink.ops Sink.lines hops hlines .empty .empty
  exact ⟨Sample.hint_accepted, by rfl, by rfl, hops, hlines, hagree, hreads rfl⟩

end Lifter
