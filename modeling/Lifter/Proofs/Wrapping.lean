/-
  Lifter.Proofs.Wrapping — where the bytes of an instruction lie in a flat image.

  A request starts at an offset that is wrapped to the code space, and an image answers
  it with the bytes that follow there, past the end of the space if the image goes on.
  So byte `i` of an instruction is the one at its offset plus `i`, wrapped, as long as
  no request has run past the end of the space; behind that end the bytes of the same
  request are those that lie next in the image (`instruction_bytes`). Which of the two
  it is depends on how the lengths of the encodings split the instruction into requests
  (`pair_unwrapped`).
-/

import Lifter.Proofs.Agreement
import Lifter.Proofs.Requests

namespace Lifter

open Specification

/-! ## Positions in a flat image -/

namespace FlatImage

/-- The byte at a position, where positions go on after 64 bits. -/
def byteAt? (image : FlatImage) (position : Nat) : Option UInt8 :=
  if image.base.toNat ≤ position then image.bytes[position - image.base.toNat]? else none

/-- The byte that is the answer to a request for one byte at `a`. -/
def AnswersByte (image : FlatImage) (a : Address) (b : UInt8) : Prop :=
  (ByteSource.fill image a 1).1 = .ok ⟨[b], rfl⟩

variable {image : FlatImage} {offset : UInt64}

theorem read_eq_ok {n : Nat} {bytes : Bytes n} :
    image.read offset n = .ok bytes ↔
      image.base ≤ offset ∧ offset.toNat - image.base.toNat + n ≤ image.bytes.length ∧
        bytes.val = (image.bytes.drop (offset.toNat - image.base.toNat)).take n := by
  by_cases hbase : image.base ≤ offset
  · by_cases hlen : offset.toNat - image.base.toNat + n ≤ image.bytes.length
    · simp [read, hbase, hlen, Subtype.ext_iff, eq_comm]
    · simp [read, hbase, hlen]
  · simp [read, hbase]

/-- An answer has the bytes from its position on. -/
theorem byteAt?_of_read {n : Nat} {bytes : Bytes n} (h : image.read offset n = .ok bytes) {j : Nat} {b : UInt8}
    (hb : bytes.val[j]? = some b) : image.byteAt? (offset.toNat + j) = some b := by
  obtain ⟨hbase, -, hbytes⟩ := read_eq_ok.mp h
  have hle : image.base.toNat ≤ offset.toNat := UInt64.le_iff_toNat_le.mp hbase
  have hj : j < n := by
    have := (List.getElem?_eq_some_iff.mp hb).1
    rwa [bytes.property] at this
  rw [hbytes, List.getElem?_take_of_lt hj, List.getElem?_drop] at hb
  rw [byteAt?, if_pos (by omega), ← hb]
  congr 1
  omega

theorem answersByte_iff {a : Address} {b : UInt8} :
    image.AnswersByte a b ↔ image.byteAt? a.offset.toNat = some b := by
  have hfill : image.AnswersByte a b ↔ image.read a.offset 1 = .ok ⟨[b], rfl⟩ :=
    mapError_eq_ok (f := SourceFailure.refused)
  rw [hfill]
  constructor
  · intro h
    exact byteAt?_of_read (j := 0) h rfl
  · intro h
    unfold byteAt? at h
    split at h
    · rename_i hbase
      obtain ⟨hlt, hb⟩ := List.getElem?_eq_some_iff.mp h
      refine read_eq_ok.mpr ⟨UInt64.le_iff_toNat_le.mpr hbase, by omega, ?_⟩
      rw [List.drop_eq_getElem_cons hlt, hb]
      rfl
    · cases h

end FlatImage

/-! ## Which request brought a byte -/

/-- Byte `i` from `start` on is one of those that `q` is for, of which number `first` comes first. -/
structure Request.Brings (start : Address) (q : Request) (first i : Nat) : Prop where
  address : q.address = start.advance (UInt64.ofNat first)
  first_le : first ≤ i
  lt : i < first + q.size

theorem Chained.exists_brings {start : Address} {requests : List Request} :
    ∀ {got : Nat}, Chained start got requests → ∀ {j : Nat} {b : UInt8}, (suppliedBytes requests)[j]? = some b →
      ∃ q ∈ requests, ∃ first bytes, q.Brings start first (got + j) ∧ q.outcome = .ok bytes ∧
        bytes[got + j - first]? = some b := by
  induction requests with
  | nil => intro got _ j b hb; cases hb
  | cons q requests ih =>
    rintro got ⟨haddress, -, hrest⟩ j b hb
    rcases hout : q.outcome with failure | bytes
    · simp only [hout] at hrest
      simp [hrest, Request.supplied, hout] at hb
    · simp only [hout] at hrest
      obtain ⟨hlen, hrest⟩ := hrest
      have hsupplied : q.supplied = bytes := by simp only [Request.supplied, hout]
      rw [suppliedBytes_cons, hsupplied] at hb
      rcases Nat.lt_or_ge j bytes.length with hj | hj
      · rw [List.getElem?_append_left hj] at hb
        refine ⟨q, List.mem_cons_self, got, bytes, ⟨haddress, by omega, by omega⟩, hout, ?_⟩
        rwa [Nat.add_sub_cancel_left]
      · rw [List.getElem?_append_right hj] at hb
        obtain ⟨q', hq', first, bytes', hbrings, hout', hb'⟩ := ih hrest hb
        have hsum : got + q.size + (j - bytes.length) = got + j := by omega
        rw [hsum] at hbrings hb'
        exact ⟨q', List.mem_cons_of_mem _ hq', first, bytes', hbrings, hout', hb'⟩

section Answers

variable {σ : Type} [ByteSource σ] [ReadOnly σ]

/-- What a source answers that only reads. -/
def Request.AnsweredBy (source : σ) (q : Request) : Prop :=
  q.outcome = (ByteSource.fill source q.address q.size).1.map (·.val)

theorem select_answered {bigEndian : Bool} {start : Address} (es : List Encoding) :
    ∀ (bytes : List UInt8) (o : Observed σ), (∀ q ∈ o.log, q.AnsweredBy o.source) →
      ∀ q ∈ (select bigEndian start es bytes o).source.log, q.AnsweredBy o.source := by
  -- one request more: it is answered by the source, which stays as it was
  have hstep : ∀ (o : Observed σ) (a : Address) (n : Nat), (∀ q ∈ o.log, q.AnsweredBy o.source) →
      (ByteSource.fill o a n).2.source = o.source ∧ ∀ q ∈ (ByteSource.fill o a n).2.log, q.AnsweredBy o.source := by
    intro o a n h
    refine ⟨ReadOnly.unchanged o.source a n, fun q hq => ?_⟩
    rw [Observed.fill_log] at hq
    rcases List.mem_cons.mp hq with rfl | hq
    · exact rfl
    · exact h q hq
  apply select_induction
    (P := fun _ _ (o : Observed σ) r => (∀ q ∈ o.log, q.AnsweredBy o.source) →
      ∀ q ∈ r.source.log, q.AnsweredBy o.source)
  case exhausted =>
    intro bytes o h
    exact h
  case found =>
    intro e es bytes o _ _ h
    exact h
  case passed =>
    intro e es bytes o r _ _ hrest
    exact hrest
  case supplied =>
    intro e es bytes o more next r _ hfill hrest h
    obtain ⟨hsame, hnext⟩ := hstep o (start.advance (UInt64.ofNat bytes.length)) (e.length - bytes.length) h
    rw [hfill] at hsame hnext
    simp only at hsame hnext
    rw [hsame] at hrest
    exact hrest hnext
  case failed =>
    intro e es bytes o failure next _ hfill h
    have hnext := (hstep o (start.advance (UInt64.ofNat bytes.length)) (e.length - bytes.length) h).2
    rw [hfill] at hnext
    exact hnext

theorem Engine.requests_answered (e : Engine σ) (offset : UInt64) :
    ∀ q ∈ (e.observed.fetch offset).source.requests, q.AnsweredBy e.source := by
  intro q hq
  by_cases hin : e.language.InPlace offset
  · rw [Engine.fetch_inPlace e.observed hin] at hq
    refine select_answered (e.candidates offset) [] (.ofSource e.source) (fun q hq => ?_) q (List.mem_reverse.mp hq)
    cases hq
  · rw [e.requests_of_not_inPlace hin] at hq
    cases hq

end Answers

/-! ## The bytes of an instruction -/

/-- Byte `i` from `offset` on lies behind the start of the request that brought it, and if that is still in
    the space, it is the one at its own offset, wrapped. -/
def PlacedByte (l : Language) (image : FlatImage) (offset : UInt64) (requests : List Request) (i : Nat) (b : UInt8) :
    Prop :=
  ∃ q ∈ requests, ∃ first, q.Brings (l.codeAddress offset) first i ∧
    image.byteAt? (q.address.offset.toNat + (i - first)) = some b ∧
    (q.address.offset.toNat + (i - first) ≤ l.codeSpace.highest.toNat →
      image.AnswersByte (l.codeAddress (offset + UInt64.ofNat i)) b)

/-- Where an image has the bytes of an instruction at `offset`, given the requests that brought them. -/
structure PlacedBytes (l : Language) (image : FlatImage) (offset : UInt64) (requests : List Request)
    (bytes : List UInt8) : Prop where
  each : ∀ i b, bytes[i]? = some b → PlacedByte l image offset requests i b
  /-- An instruction that ends in the space has all its bytes at their own offsets. -/
  inside : offset.toNat + bytes.length ≤ l.codeSpace.highest.toNat + 1 → ∀ i b, bytes[i]? = some b →
    image.AnswersByte (l.codeAddress (offset + UInt64.ofNat i)) b

/-- What a request brought lies behind its start. -/
theorem Request.AnsweredBy.byteAt? {image : FlatImage} {q : Request} (h : q.AnsweredBy image) {bytes : List UInt8}
    (hok : q.outcome = .ok bytes) {j : Nat} {b : UInt8} (hb : bytes[j]? = some b) :
    image.byteAt? (q.address.offset.toNat + j) = some b := by
  obtain ⟨answer, hanswer, rfl⟩ := map_eq_ok.mp (h.symm.trans hok)
  exact FlatImage.byteAt?_of_read (mapError_eq_ok.mp hanswer) hb

namespace Request.Brings

variable {l : Language} {offset : UInt64} {q : Request} {first i : Nat}

/-- Where a request starts is wrapped to the space. -/
theorem start (h : q.Brings (l.codeAddress offset) first i) (hin : l.InPlace offset) :
    q.address.offset.toNat = (offset.toNat + first) % l.codeSpace.extent := by
  rw [h.address, Engine.advance_codeAddress hin]
  exact l.codeSpace.toNat_wrap_add offset first

/-- Where a request has not left the space at byte `i`, that byte is at its own offset. -/
theorem position (h : q.Brings (l.codeAddress offset) first i) (hin : l.InPlace offset)
    (hle : q.address.offset.toNat + (i - first) ≤ l.codeSpace.highest.toNat) :
    q.address.offset.toNat + (i - first) = (l.codeAddress (offset + UInt64.ofNat i)).offset.toNat := by
  have hpos := l.codeSpace.extent_pos
  have hfirst := h.first_le
  rw [h.start hin, l.codeSpace.toNat_highest] at hle
  calc q.address.offset.toNat + (i - first)
      = ((offset.toNat + first) % l.codeSpace.extent + (i - first)) % l.codeSpace.extent := by
        rw [h.start hin]
        exact (Nat.mod_eq_of_lt (by omega)).symm
    _ = (offset.toNat + first + (i - first)) % l.codeSpace.extent := Nat.mod_add_mod _ _ _
    _ = (offset.toNat + i) % l.codeSpace.extent := by rw [Nat.add_assoc, Nat.add_sub_cancel' hfirst]
    _ = (l.codeAddress (offset + UInt64.ofNat i)).offset.toNat := (l.codeSpace.toNat_wrap_add offset i).symm

/-- A request for a byte that lies before the end of the space has not left it. -/
theorem position_of_le (h : q.Brings (l.codeAddress offset) first i) (hin : l.InPlace offset)
    (hle : offset.toNat + i ≤ l.codeSpace.highest.toNat) :
    q.address.offset.toNat + (i - first) = offset.toNat + i := by
  have hpos := l.codeSpace.extent_pos
  have hfirst := h.first_le
  rw [l.codeSpace.toNat_highest] at hle
  rw [h.start hin, Nat.mod_eq_of_lt (by omega)]
  omega

end Request.Brings

section Placing

variable {engine : Engine FlatImage} {offset : UInt64} (hin : engine.language.InPlace offset)

include hin

theorem Engine.placedByte {i : Nat} {b : UInt8}
    (hb : (suppliedBytes (engine.observed.fetch offset).source.requests)[i]? = some b) :
    PlacedByte engine.language engine.source offset (engine.observed.fetch offset).source.requests i b := by
  obtain ⟨q, hq, first, bytes, hbrings, hok, hbyte⟩ := Engine.chained_requests.exists_brings hb
  rw [Nat.zero_add] at hbrings hbyte
  have hat := (engine.requests_answered offset q hq).byteAt? hok hbyte
  refine ⟨q, hq, first, hbrings, hat, fun hle => FlatImage.answersByte_iff.mpr ?_⟩
  rwa [← hbrings.position hin hle]

theorem Engine.placedBytes :
    PlacedBytes engine.language engine.source offset (engine.observed.fetch offset).source.requests
      (suppliedBytes (engine.observed.fetch offset).source.requests) := by
  refine ⟨fun i b hb => placedByte hin hb, fun hend i b hb => ?_⟩
  obtain ⟨q, -, first, hbrings, -, hwrapped⟩ := placedByte hin hb
  have hi := (List.getElem?_eq_some_iff.mp hb).1
  refine hwrapped ?_
  rw [hbrings.position_of_le hin (by omega)]
  omega

end Placing

/-- The bytes of an instruction that is decoded follow the wrapped offsets up to the end of the space, and
    behind it wherever a request starts anew. -/
theorem Engine.instruction_bytes {root : Element} {τ : Type} (engine : Engine FlatImage) (offset : UInt64)
    (accepted : Language.ofElement root = .ok engine.language) (sink : Sink MicroOp τ) (t : τ) (n : Nat)
    (decoded : (engine.decode offset sink t).result = .ok n) :
    (engine.decode offset sink t).engine.lastBytes.length = n ∧
      PlacedBytes engine.language engine.source offset
        (engine.observed.decode offset sink t).engine.source.requests
        (engine.decode offset sink t).engine.lastBytes := by
  have hw := ofElement_wellFormed accepted
  obtain ⟨_, _, _, _, hordered⟩ := ofElement_encodings accepted
  have hcontiguous : ContiguousRequests engine.language offset (engine.decode offset sink t).result
      (engine.decode offset sink t).engine.lastBytes (engine.observed.decode offset sink t).engine.source.requests :=
    run_contiguous hw hordered.ascending (fun i err h => microOps_error h) sink t
  obtain ⟨-, hbytes, hlength⟩ := hcontiguous.ok n decoded
  obtain ⟨i, -, hfound, -⟩ := (engine.run_ends offset (microOps engine.language) sink t).of_ok decoded
  have hrequests : (engine.observed.decode offset sink t).engine.source.requests =
      (engine.observed.fetch offset).source.requests := engine.requests_run offset _ sink t
  refine ⟨hlength, ?_⟩
  rw [hbytes, hrequests]
  exact placedBytes (engine.fetch_ok hfound).1

namespace Sample

/-- A description with one space of 256 offsets and these instructions. -/
def narrowRoot (instructions : List Element) : Element :=
  ⟨"processor", [("name", "narrow"), ("endian", "big")], "",
    [⟨"spaces", [("default", "code")], "", [leaf "space" [("name", "code"), ("size", "1")]]⟩,
      ⟨"instructions", [], "", instructions⟩]⟩

def narrowSpace : Space := ⟨⟨1⟩, "code", .processor, 1, 1, true⟩

def narrowUnique : Space := ⟨⟨2⟩, "unique", .internal, 4, 1, true⟩

def narrow (encodings : List Encoding) : Language where
  name := "narrow"
  bigEndian := true
  alignment := 1
  spaces := [constantSpace true, narrowSpace, narrowUnique]
  constantSpace := constantSpace true
  codeSpace := narrowSpace
  uniqueSpace := narrowUnique
  registerStore := .empty
  tables := []
  contextFields := []
  encodings := encodings

def pair : Encoding := ⟨"pair", 2, 0xff00, 0x2000, [], [], [], []⟩

def pairElement : Element :=
  leaf "instruction" [("mnemonic", "pair"), ("length", "2"), ("mask", "0xff00"), ("match", "0x2000")]

def single : Encoding := ⟨"single", 1, 0xff, 0x30, [], [], [], []⟩

def singleElement : Element :=
  leaf "instruction" [("mnemonic", "single"), ("length", "1"), ("mask", "0xff"), ("match", "0x30")]

theorem pair_accepted : Language.ofElement (narrowRoot [pairElement]) = .ok (narrow [pair]) := by rfl

theorem split_accepted :
    Language.ofElement (narrowRoot [pairElement, singleElement]) = .ok (narrow [single, pair]) := by rfl

/-- One byte more than the space has offsets; the first one is also what the offset behind the last wraps to. -/
def overlong : FlatImage := ⟨0, [0x07] ++ List.replicate 254 0 ++ [0x20, 0x05]⟩

end Sample

/-- With a shorter encoding to try first, the second byte of `pair` is asked for at offset 0. -/
theorem Engine.instruction_bytes_split :
    let engine := Engine.ofLanguage Sample.overlong (Sample.narrow [Sample.single, Sample.pair])
    Language.ofElement (Sample.narrowRoot [Sample.pairElement, Sample.singleElement]) = .ok engine.language ∧
      (engine.decode 0xff Sink.ops .empty).result = .ok 2 ∧
      (engine.decode 0xff Sink.ops .empty).engine.lastBytes = [0x20, 0x07] ∧
      (engine.decode 0xff Sink.ops .empty).engine.lastBytes.length = 2 ∧
      PlacedBytes engine.language engine.source 0xff
        (engine.observed.decode 0xff Sink.ops .empty).engine.source.requests
        (engine.decode 0xff Sink.ops .empty).engine.lastBytes :=
  ⟨Sample.split_accepted, by decide +kernel, by decide +kernel,
    Engine.instruction_bytes _ 0xff Sample.split_accepted Sink.ops .empty 2 (by decide +kernel)⟩

/-- Without one, it is asked for together with the first byte, and is not the one at the wrapped offset. -/
theorem Engine.pair_unwrapped :
    let engine := Engine.ofLanguage Sample.overlong (Sample.narrow [Sample.pair])
    Language.ofElement (Sample.narrowRoot [Sample.pairElement]) = .ok engine.language ∧
      engine.language.InPlace 0xff ∧
      (engine.decode 0xff Sink.ops .empty).result = .ok 2 ∧
      (engine.decode 0xff Sink.ops .empty).engine.lastBytes = [0x20, 0x05] ∧
      engine.source.AnswersByte (engine.language.codeAddress (0xff + 1)) 0x07 ∧
      ¬ engine.source.AnswersByte (engine.language.codeAddress (0xff + 1)) 0x05 := by
  simp only [FlatImage.answersByte_iff]
  exact ⟨Sample.pair_accepted, ⟨by decide, by decide⟩, by decide +kernel, by decide +kernel, by decide +kernel,
    by decide +kernel⟩

end Lifter
