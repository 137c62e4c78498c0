/-
  Lifter.Proofs.ElfSegments — which sections of an ELF file are mapped.

  A section is mapped if it is allocated and not empty. `MapsTo` says what its segment has
  to be, `Faulty` what is wrong with a section for which there is none: it makes up too
  many zeros or goes on past the end of the file (`Unfillable`), or else the address behind
  it is not one of 64 bits. One of the two holds of every section (`elfSegment_eq_ok`,
  `elfSegment_eq_error`). Over all sections it follows that the mapped ones and the
  segments correspond in order, and that the first faulty one is reported
  (`ofElf_mapped`).
-/

import Lifter.Image.Load
import Lifter.Proofs.Segments

namespace Lifter

open Specification

namespace Elf.Section

def isMapped (s : Section) : Bool := s.isAllocated && s.size != 0

/-- What the section has in memory: zeros, not too many of them, or its bytes in the file. -/
structure Fills (file : List UInt8) (s : Section) (contents : List UInt8) : Prop where
  length : contents.length = s.size.toNat
  zeros : s.isZeroFill = true →
    s.size.toNat ≤ SegmentedImage.maxSegmentSize ∧ contents = List.replicate s.size.toNat 0
  bytes : s.isZeroFill = false → s.offset.toNat + s.size.toNat ≤ file.length ∧
    ∀ i < s.size.toNat, contents[i]? = file[s.offset.toNat + i]?

/-- The segment is that of the section, and it does not wrap. -/
structure MapsTo (file : List UInt8) (s : Section) (segment : Segment) : Prop where
  name : segment.name = s.name
  address : segment.address = s.address
  executable : segment.executable = s.isExecutable
  contents : s.Fills file segment.contents
  inside : segment.address.toNat + segment.contents.length < UInt64.size

/-- There are no contents for the section. -/
inductive Unfillable (file : List UInt8) (s : Section) : ImageError → Prop
  | tooLarge : s.isZeroFill = true → SegmentedImage.maxSegmentSize < s.size.toNat →
      Unfillable file s (.tooLarge s.name s.size)
  | truncated : s.isZeroFill = false → file.length < s.offset.toNat + s.size.toNat → Unfillable file s (.truncated s.name)

/-- What is reported about the section. That its address and size are too much for 64 bits comes last. -/
inductive Faulty (file : List UInt8) (s : Section) : ImageError → Prop
  | unfillable {err : ImageError} : s.Unfillable file err → Faulty file s err
  | overflowing : (∀ err, ¬s.Unfillable file err) → UInt64.size ≤ s.address.toNat + s.size.toNat →
      Faulty file s (.addressOverflow s.name)

end Elf.Section

namespace SegmentedImage

variable {name : String} {file : List UInt8} {err : ImageError}

/-! ## Contents -/

theorem zeroFillSize_eq_ok {size : UInt64} {n : Nat} :
    zeroFillSize name size = .ok n ↔ size.toNat ≤ maxSegmentSize ∧ n = size.toNat := by
  unfold zeroFillSize
  by_cases h : size.toNat ≤ maxSegmentSize
  · simp [h, eq_comm]
  · simp [h]

theorem zeroFillSize_eq_error {size : UInt64} :
    zeroFillSize name size = .error err ↔ maxSegmentSize < size.toNat ∧ err = .tooLarge name size := by
  unfold zeroFillSize
  by_cases h : size.toNat ≤ maxSegmentSize
  · simp [h, Nat.not_lt.mpr h]
  · simp [h, Nat.lt_of_not_le h, eq_comm]

theorem fileContents_eq_ok {offset size : UInt64} {bytes : List UInt8} :
    fileContents name file offset size = .ok bytes ↔
      offset.toNat + size.toNat ≤ file.length ∧ bytes = (file.drop offset.toNat).take size.toNat := by
  unfold fileContents Binary.slice?
  by_cases h : offset.toNat + size.toNat ≤ file.length
  · simp [h, eq_comm]
  · simp [h]

theorem fileContents_eq_error {offset size : UInt64} :
    fileContents name file offset size = .error err ↔
      file.length < offset.toNat + size.toNat ∧ err = .truncated name := by
  unfold fileContents Binary.slice?
  by_cases h : offset.toNat + size.toNat ≤ file.length
  · simp [h, Nat.not_lt.mpr h]
  · simp [h, Nat.lt_of_not_le h, eq_comm]

/-! ## One section -/

variable {s : Elf.Section}

theorem elfContents_eq_error : elfContents file s = .error err ↔ s.Unfillable file err := by
  unfold elfContents
  by_cases hzero : s.isZeroFill = true
  · rw [if_pos hzero, map_eq_error, zeroFillSize_eq_error]
    constructor
    · rintro ⟨hlt, rfl⟩
      exact .tooLarge hzero hlt
    · intro h
      cases h with
      | tooLarge _ hlt => exact ⟨hlt, rfl⟩
      | truncated hfile => exact absurd hzero (by rw [hfile]; decide)
  · rw [if_neg hzero, map_eq_error, fileContents_eq_error]
    constructor
    · rintro ⟨hlt, rfl⟩
      exact .truncated (Bool.not_eq_true _ ▸ hzero) hlt
    · intro h
      cases h with
      | tooLarge hzero' => exact absurd hzero' hzero
      | truncated _ hlt => exact ⟨hlt, rfl⟩

theorem elfContents_eq_ok {bytes : List UInt8} {zeros : Nat} (h : elfContents file s = .ok (bytes, zeros)) :
    s.Fills file (bytes ++ List.replicate zeros 0) := by
  unfold elfContents at h
  by_cases hzero : s.isZeroFill = true
  · rw [if_pos hzero, map_eq_ok] at h
    obtain ⟨n, hn, heq⟩ := h
    cases heq
    obtain ⟨hle, rfl⟩ := zeroFillSize_eq_ok.mp hn
    refine ⟨by simp, fun _ => ⟨hle, by simp⟩, ?_⟩
    intro hfile
    exact absurd hzero (by rw [hfile]; decide)
  · rw [if_neg hzero, map_eq_ok] at h
    obtain ⟨contents, hcontents, heq⟩ := h
    cases heq
    obtain ⟨hle, rfl⟩ := fileContents_eq_ok.mp hcontents
    refine ⟨?_, fun hzero' => absurd hzero' hzero, fun _ => ⟨hle, ?_⟩⟩
    · simp only [List.replicate_zero, List.append_nil, List.length_take, List.length_drop]
      omega
    · intro i hi
      rw [List.replicate_zero, List.append_nil, List.getElem?_take_of_lt hi, List.getElem?_drop]

theorem elfSegment_eq_ok {segment : Segment} (h : elfSegment file s = .ok segment) : s.MapsTo file segment := by
  unfold elfSegment at h
  obtain ⟨⟨bytes, zeros⟩, hcontents, h⟩ := bind_eq_ok.mp h
  obtain ⟨hinside, h⟩ := unless_eq_ok.mp h
  cases h
  have hfills := elfContents_eq_ok hcontents
  refine ⟨rfl, rfl, rfl, hfills, ?_⟩
  rw [Segment.contents, hfills.length]
  exact Nat.lt_of_not_le hinside

theorem elfSegment_eq_error : elfSegment file s = .error err ↔ s.Faulty file err := by
  unfold elfSegment
  rw [bind_eq_error, elfContents_eq_error]
  constructor
  · intro h
    cases h with
    | inl hunfillable => exact .unfillable hunfillable
    | inr hfilled =>
      obtain ⟨⟨bytes, zeros⟩, hcontents, h⟩ := hfilled
      rcases unless_eq_error.mp h with ⟨hwrap, rfl⟩ | ⟨-, h⟩
      · refine .overflowing ?_ hwrap
        intro e he
        rw [elfContents_eq_error.mpr he] at hcontents
        cases hcontents
      · cases h
  · intro h
    cases h with
    | unfillable hunfillable => exact .inl hunfillable
    | overflowing hfillable hwrap =>
      cases hcontents : elfContents file s with
      | error e => exact absurd (elfContents_eq_error.mp hcontents) (hfillable e)
      | ok filled => exact .inr ⟨filled, rfl, unless_eq_error.mpr (.inl ⟨hwrap, rfl⟩)⟩

/-! ## All sections -/

theorem filter_eq_append_cons {α : Type} {p : α → Bool} {as before after : List α} {a : α} :
    as.filter p = before ++ a :: after ↔ ∃ front back, as = front ++ a :: back ∧ front.filter p = before ∧
      p a = true ∧ back.filter p = after := by
  constructor
  · intro h
    obtain ⟨front, rest, rfl, rfl, hrest⟩ := List.filter_eq_append_iff.mp h
    obtain ⟨skipped, back, rfl, hskipped, ha, hback⟩ := List.filter_eq_cons_iff.mp hrest
    have hnone : skipped.filter p = [] := List.filter_eq_nil_iff.mpr hskipped
    refine ⟨front ++ skipped, back, (List.append_assoc _ _ _).symm, ?_, ha, hback⟩
    rw [List.filter_append, hnone, List.append_nil]
  · rintro ⟨front, back, rfl, rfl, ha, rfl⟩
    rw [List.filter_append, List.filter_cons_of_pos ha]

theorem ofElf_eq_ok {elf : Elf.File} {image : SegmentedImage} :
    ofElf file elf = .ok image ↔
      (elf.sections.filter (·.isMapped)).mapM (elfSegment file) = .ok image.segments ∧ image.entry = some elf.entry := by
  unfold ofElf
  rw [bind_eq_ok]
  constructor
  · rintro ⟨segments, hsegments, h⟩
    cases h
    exact ⟨hsegments, rfl⟩
  · rintro ⟨hsegments, hentry⟩
    exact ⟨image.segments, hsegments, by rw [← hentry]; rfl⟩

theorem ofElf_eq_error {elf : Elf.File} :
    ofElf file elf = .error err ↔ (elf.sections.filter (·.isMapped)).mapM (elfSegment file) = .error err := by
  unfold ofElf
  rw [bind_eq_error]
  constructor
  · rintro (h | ⟨segments, -, h⟩)
    · exact h
    · cases h
  · exact .inl

theorem mapsTo_of_ofElf {elf : Elf.File} {image : SegmentedImage} (h : ofElf file elf = .ok image) :
    List.Forall₂ (Elf.Section.MapsTo file) (elf.sections.filter (·.isMapped)) image.segments :=
  (mapM_eq_ok.mp (ofElf_eq_ok.mp h).1).imp fun _ _ => elfSegment_eq_ok

/-- What is said of images that do not wrap is said of every image of an ELF file. -/
theorem ofElf_regular {elf : Elf.File} {image : SegmentedImage} (h : ofElf file elf = .ok image) : image.Regular := by
  intro segment hsegment
  obtain ⟨s, -, hmaps⟩ := exists_of_forall₂ (mapsTo_of_ofElf h) segment hsegment
  rw [← Segment.length_contents]
  exact Nat.le_of_lt hmaps.inside

/-- From every list of sections the image has a segment for each mapped one, in order; or the first mapped one about
    which there is something to report is reported. -/
theorem ofElf_mapped (file : List UInt8) (elf : Elf.File) :
    (∀ image, ofElf file elf = .ok image → image.entry = some elf.entry ∧
      List.Forall₂ (Elf.Section.MapsTo file) (elf.sections.filter (·.isMapped)) image.segments) ∧
      ∀ err, ofElf file elf = .error err ↔ ∃ before s after, elf.sections = before ++ s :: after ∧
        (∀ t ∈ before, t.isMapped = true → ∀ e, ¬t.Faulty file e) ∧ s.isMapped = true ∧ s.Faulty file err := by
  constructor
  · intro image h
    exact ⟨(ofElf_eq_ok.mp h).2, mapsTo_of_ofElf h⟩
  · intro err
    rw [ofElf_eq_error, mapM_eq_error]
    constructor
    · rintro ⟨before, s, after, hsplit, hbefore, hs⟩
      obtain ⟨front, back, hsections, rfl, hmapped, -⟩ := filter_eq_append_cons.mp hsplit
      refine ⟨front, s, back, hsections, ?_, hmapped, elfSegment_eq_error.mp hs⟩
      intro t ht htmapped e he
      exact hbefore t (List.mem_filter.mpr ⟨ht, htmapped⟩) e (elfSegment_eq_error.mpr he)
    · rintro ⟨front, s, back, hsections, hfront, hmapped, hs⟩
      refine ⟨_, s, _, filter_eq_append_cons.mpr ⟨front, back, hsections, rfl, hmapped, rfl⟩, ?_,
        elfSegment_eq_error.mpr hs⟩
      intro t ht e he
      obtain ⟨htfront, htmapped⟩ := List.mem_filter.mp ht
      exact hfront t htfront htmapped e (elfSegment_eq_error.mp he)

namespace Sample

def text : Elf.Section := ⟨".text", 1, 6, 0x1000, 0, 2⟩

/-- Not allocated, and past the end of the file. -/
def debug : Elf.Section := ⟨".debug", 1, 0, 0, 0xffffffffffffffff, 5⟩

def bss : Elf.Section := ⟨".bss", 8, 3, 0x2000, 0x100, 3⟩

/-- More zeros than there may be, at addresses that there are not. -/
def heap : Elf.Section := ⟨".heap", 8, 3, 0xffffffffffffffff, 0, 0x40000001⟩

end Sample

theorem ofElf_mapped_bss :
    let file : List UInt8 := [0x90, 0xc3]
    let elf : Elf.File := ⟨0x1000, [Sample.debug, Sample.text, Sample.bss]⟩
    let image : SegmentedImage :=
      ⟨[⟨".text", 0x1000, [0x90, 0xc3], 0, true⟩, ⟨".bss", 0x2000, [], 3, false⟩], some 0x1000⟩
    let faulty : Elf.File := ⟨0x1000, [Sample.debug, Sample.heap, Sample.text]⟩
    ofElf file elf = .ok image ∧ image.entry = some elf.entry ∧
      List.Forall₂ (Elf.Section.MapsTo file) [Sample.text, Sample.bss] image.segments ∧
      ofElf file faulty = .error (.tooLarge ".heap" 0x40000001) := by
  intro file elf image faulty
  have loaded : ofElf file elf = .ok image := by decide +kernel
  obtain ⟨hentry, hmaps⟩ := (ofElf_mapped file elf).1 image loaded
  have hfaulty : Sample.heap.Faulty file (.tooLarge ".heap" 0x40000001) :=
    .unfillable (.tooLarge (by decide) (by decide))
  have hbefore : ∀ t ∈ [Sample.debug], t.isMapped = true → ∀ e, ¬t.Faulty file e := by
    intro t ht hmapped
    rw [List.mem_singleton.mp ht] at hmapped
    exact absurd hmapped (by decide)
  exact ⟨loaded, hentry, hmaps, ((ofElf_mapped file faulty).2 _).mpr
    ⟨[Sample.debug], Sample.heap, [Sample.text], rfl, hbefore, by decide, hfaulty⟩⟩

end SegmentedImage

end Lifter
