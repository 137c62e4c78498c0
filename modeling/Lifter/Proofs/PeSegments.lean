/-
  Lifter.Proofs.PeSegments — how the sections of a PE file are mapped.

  Every section is mapped, in the order of the table and behind the image base, with the
  size it has in memory; only one that gives no such size has the size of its bytes in
  the file. `MapsTo` says what its segment has to be, `Faulty` what is wrong with a section
  for which there is none: its bytes go on past the end of the file, or else it claims too
  much memory (`Unfillable`), or else the address behind it is not one of 64 bits. One of
  the two holds of every section (`peSegment_eq_ok`, `peSegment_eq_error`). Over the table
  it follows that sections and segments correspond one by one, and that the first faulty
  section is reported, the entry point only behind all of them (`ofPe_mapped`).
-/

import Lifter.Proofs.ElfSegments

namespace Lifter

open Specification

namespace Pe.Section

/-- The size in memory, and that in the file if the header gives none. -/
def memorySize (s : Section) : Nat := if s.virtualSize = 0 then s.rawSize.toNat else s.virtualSize.toNat

/-- What the section has in memory: as many of its bytes in the file as there is room for, and zeros behind them. -/
structure Fills (file : List UInt8) (s : Section) (contents : List UInt8) : Prop where
  inFile : s.rawOffset.toNat + s.rawSize.toNat ≤ file.length
  notTooLarge : s.virtualSize.toNat ≤ SegmentedImage.maxSegmentSize
  length : contents.length = s.memorySize
  bytes : ∀ i < s.memorySize, contents[i]? = if i < s.rawSize.toNat then file[s.rawOffset.toNat + i]? else some 0

/-- The segment is that of the section behind the base, and neither address wraps. -/
structure MapsTo (file : List UInt8) (base : UInt64) (s : Section) (segment : Segment) : Prop where
  name : segment.name = s.name
  address : segment.address.toNat = base.toNat + s.virtualAddress.toNat
  executable : segment.executable = s.isExecutable
  contents : s.Fills file segment.contents
  inside : segment.address.toNat + segment.contents.length < UInt64.size

/-- There are no contents for the section. That it claims too much memory comes second. -/
inductive Unfillable (file : List UInt8) (s : Section) : ImageError → Prop
  | truncated : file.length < s.rawOffset.toNat + s.rawSize.toNat → Unfillable file s (.truncated s.name)
  | tooLarge : s.rawOffset.toNat + s.rawSize.toNat ≤ file.length →
      SegmentedImage.maxSegmentSize < s.virtualSize.toNat →
      Unfillable file s (.tooLarge s.name s.virtualSize.toUInt64)

/-- What is reported about the section. That its address and size are too much for 64 bits comes last. -/
inductive Faulty (file : List UInt8) (base : UInt64) (s : Section) : ImageError → Prop
  | unfillable {err : ImageError} : s.Unfillable file err → Faulty file base s err
  | overflowing : (∀ err, ¬s.Unfillable file err) →
      UInt64.size ≤ base.toNat + s.virtualAddress.toNat + s.memorySize → Faulty file base s (.addressOverflow s.name)

end Pe.Section

namespace SegmentedImage

variable {file : List UInt8} {base : UInt64} {err : ImageError} {s : Pe.Section}

/-! ## Contents -/

/-- Bytes that are cut or filled up to a size. -/
theorem getElem?_resized {bytes : List UInt8} {size i : Nat} (h : i < size) :
    (bytes.take size ++ List.replicate (size - bytes.length) 0)[i]? =
      if i < bytes.length then bytes[i]? else some 0 := by
  by_cases hi : i < bytes.length
  · rw [if_pos hi, List.getElem?_append_left (by simp; omega), List.getElem?_take_of_lt h]
  · rw [if_neg hi, List.getElem?_append_right (by simp; omega), List.getElem?_replicate, if_pos (by simp; omega)]

theorem peContents_eq_error : peContents file s = .error err ↔ s.Unfillable file err := by
  unfold peContents
  rw [bind_eq_error, fileContents_eq_error]
  simp only [UInt32.toNat_toUInt64]
  constructor
  · intro h
    cases h with
    | inl hfile =>
      obtain ⟨hlt, rfl⟩ := hfile
      exact .truncated hlt
    | inr hmemory =>
      obtain ⟨bytes, hbytes, h⟩ := hmemory
      by_cases hsize : s.virtualSize = 0
      · rw [if_pos hsize] at h
        cases h
      · rw [if_neg hsize] at h
        rcases bind_eq_error.mp h with hlarge | ⟨size, -, h⟩
        · obtain ⟨hlt, rfl⟩ := zeroFillSize_eq_error.mp hlarge
          have hle := (fileContents_eq_ok.mp hbytes).1
          simp only [UInt32.toNat_toUInt64] at hlt hle
          exact .tooLarge hle hlt
        · cases h
  · intro h
    cases h with
    | truncated hlt => exact .inl ⟨hlt, rfl⟩
    | tooLarge hle hlt =>
      refine .inr ⟨_, fileContents_eq_ok.mpr ⟨by simpa using hle, rfl⟩, ?_⟩
      have hsize : s.virtualSize ≠ 0 := by
        intro hzero
        simp [hzero] at hlt
      rw [if_neg hsize, bind_eq_error, zeroFillSize_eq_error]
      exact .inl ⟨by simpa using hlt, rfl⟩

theorem peContents_eq_ok {bytes : List UInt8} {zeros : Nat} (h : peContents file s = .ok (bytes, zeros)) :
    s.Fills file (bytes ++ List.replicate zeros 0) := by
  unfold peContents at h
  obtain ⟨raw, hraw, h⟩ := bind_eq_ok.mp h
  obtain ⟨hle, rfl⟩ := fileContents_eq_ok.mp hraw
  simp only [UInt32.toNat_toUInt64] at hle h
  have hlength : ((file.drop s.rawOffset.toNat).take s.rawSize.toNat).length = s.rawSize.toNat := by
    simp
    omega
  have hbytes : ∀ i, i < s.rawSize.toNat →
      ((file.drop s.rawOffset.toNat).take s.rawSize.toNat)[i]? = file[s.rawOffset.toNat + i]? := by
    intro i hi
    rw [List.getElem?_take_of_lt hi, List.getElem?_drop]
  by_cases hsize : s.virtualSize = 0
  · rw [if_pos hsize] at h
    cases h
    have hmemory : s.memorySize = s.rawSize.toNat := if_pos hsize
    refine ⟨hle, by simp [hsize], by simp [hmemory, hlength], ?_⟩
    intro i hi
    rw [hmemory] at hi
    rw [if_pos hi, List.replicate_zero, List.append_nil, hbytes i hi]
  · rw [if_neg hsize] at h
    obtain ⟨size, hfill, h⟩ := bind_eq_ok.mp h
    cases h
    obtain ⟨hmax, rfl⟩ := zeroFillSize_eq_ok.mp hfill
    simp only [UInt32.toNat_toUInt64] at hmax ⊢
    have hmemory : s.memorySize = s.virtualSize.toNat := if_neg hsize
    refine ⟨hle, hmax, ?_, ?_⟩
    · rw [hmemory, List.length_append, List.length_take, List.length_replicate]
      omega
    · intro i hi
      rw [hmemory] at hi
      rw [getElem?_resized hi, hlength]
      by_cases hraw : i < s.rawSize.toNat
      · rw [if_pos hraw, if_pos hraw, hbytes i hraw]
      · rw [if_neg hraw, if_neg hraw]

/-! ## One section -/

theorem peSegment_eq_ok {segment : Segment} (h : peSegment file base s = .ok segment) :
    s.MapsTo file base segment := by
  unfold peSegment at h
  obtain ⟨⟨bytes, zeros⟩, hcontents, h⟩ := bind_eq_ok.mp h
  obtain ⟨hinside, h⟩ := unless_eq_ok.mp h
  cases h
  have hsize : UInt64.size = 2 ^ 64 := rfl
  have haddress : (base + s.virtualAddress.toUInt64).toNat = base.toNat + s.virtualAddress.toNat := by
    rw [UInt64.toNat_add, UInt32.toNat_toUInt64]
    omega
  refine ⟨rfl, haddress, rfl, peContents_eq_ok hcontents, ?_⟩
  rw [haddress, Segment.length_contents, Segment.size]
  exact Nat.lt_of_not_le hinside

theorem peSegment_eq_error : peSegment file base s = .error err ↔ s.Faulty file base err := by
  unfold peSegment
  rw [bind_eq_error, peContents_eq_error]
  have hlength : ∀ {bytes zeros}, peContents file s = .ok (bytes, zeros) → bytes.length + zeros = s.memorySize := by
    intro bytes zeros hcontents
    simpa using (peContents_eq_ok hcontents).length
  constructor
  · intro h
    cases h with
    | inl hunfillable => exact .unfillable hunfillable
    | inr hfilled =>
      obtain ⟨⟨bytes, zeros⟩, hcontents, h⟩ := hfilled
      rcases unless_eq_error.mp h with ⟨hwrap, rfl⟩ | ⟨-, h⟩
      · rw [hlength hcontents] at hwrap
        refine .overflowing ?_ hwrap
        intro e he
        rw [peContents_eq_error.mpr he] at hcontents
        cases hcontents
      · cases h
  · intro h
    cases h with
    | unfillable hunfillable => exact .inl hunfillable
    | overflowing hfillable hwrap =>
      cases hcontents : peContents file s with
      | error e => exact absurd (peContents_eq_error.mp hcontents) (hfillable e)
      | ok filled =>
        refine .inr ⟨filled, rfl, unless_eq_error.mpr (.inl ⟨?_, rfl⟩)⟩
        rw [hlength hcontents]
        exact hwrap

/-! ## All sections -/

variable {pe : Pe.File}

theorem ofPe_eq_ok {image : SegmentedImage} :
    ofPe file pe = .ok image ↔ pe.sections.mapM (peSegment file pe.base) = .ok image.segments ∧
      pe.base.toNat + pe.entry.toNat < UInt64.size ∧ image.entry = some (pe.base + pe.entry.toUInt64) := by
  unfold ofPe
  rw [bind_eq_ok]
  constructor
  · intro h
    obtain ⟨segments, hsegments, h⟩ := h
    obtain ⟨hentry, h⟩ := unless_eq_ok.mp h
    cases h
    exact ⟨hsegments, Nat.lt_of_not_le hentry, rfl⟩
  · intro h
    obtain ⟨hsegments, hinside, hentry⟩ := h
    exact ⟨image.segments, hsegments, unless_eq_ok.mpr ⟨Nat.not_le_of_lt hinside, by rw [← hentry]; rfl⟩⟩

theorem ofPe_eq_error :
    ofPe file pe = .error err ↔ pe.sections.mapM (peSegment file pe.base) = .error err ∨
      (∃ segments, pe.sections.mapM (peSegment file pe.base) = .ok segments) ∧
        UInt64.size ≤ pe.base.toNat + pe.entry.toNat ∧ err = .addressOverflow "entry" := by
  unfold ofPe
  rw [bind_eq_error]
  refine or_congr_right ⟨?_, ?_⟩
  · intro h
    obtain ⟨segments, hsegments, h⟩ := h
    rcases unless_eq_error.mp h with ⟨hwrap, rfl⟩ | ⟨-, h⟩
    · exact ⟨⟨segments, hsegments⟩, hwrap, rfl⟩
    · cases h
  · intro h
    obtain ⟨⟨segments, hsegments⟩, hwrap, rfl⟩ := h
    exact ⟨segments, hsegments, unless_eq_error.mpr (.inl ⟨hwrap, rfl⟩)⟩

theorem mapsTo_of_ofPe {image : SegmentedImage} (h : ofPe file pe = .ok image) :
    List.Forall₂ (Pe.Section.MapsTo file pe.base) pe.sections image.segments :=
  (mapM_eq_ok.mp (ofPe_eq_ok.mp h).1).imp fun _ _ => peSegment_eq_ok

/-- What is said of images that do not wrap is said of every image of a PE file. -/
theorem ofPe_regular {image : SegmentedImage} (h : ofPe file pe = .ok image) : image.Regular := by
  intro segment hsegment
  obtain ⟨s, -, hmaps⟩ := exists_of_forall₂ (mapsTo_of_ofPe h) segment hsegment
  rw [← Segment.length_contents]
  exact Nat.le_of_lt hmaps.inside

/-- From every table of sections the image has a segment for each, in order, and its entry point does not wrap; or the
    first section about which there is something to report is reported, and if there is none, the entry point. -/
theorem ofPe_mapped (file : List UInt8) (pe : Pe.File) :
    (∀ image, ofPe file pe = .ok image →
      (∃ entry, image.entry = some entry ∧ entry.toNat = pe.base.toNat + pe.entry.toNat) ∧
      List.Forall₂ (Pe.Section.MapsTo file pe.base) pe.sections image.segments) ∧
    ∀ err, ofPe file pe = .error err ↔
      (∃ before s after, pe.sections = before ++ s :: after ∧ (∀ t ∈ before, ∀ e, ¬t.Faulty file pe.base e) ∧
        s.Faulty file pe.base err) ∨
      (∀ t ∈ pe.sections, ∀ e, ¬t.Faulty file pe.base e) ∧ UInt64.size ≤ pe.base.toNat + pe.entry.toNat ∧
        err = .addressOverflow "entry" := by
  constructor
  · intro image h
    obtain ⟨-, hinside, hentry⟩ := ofPe_eq_ok.mp h
    refine ⟨⟨_, hentry, ?_⟩, mapsTo_of_ofPe h⟩
    rw [UInt64.toNat_add, UInt32.toNat_toUInt64]
    exact Nat.mod_eq_of_lt hinside
  · intro err
    rw [ofPe_eq_error, mapM_eq_error, mapM_succeeds_iff]
    simp only [ne_eq, peSegment_eq_error]

namespace Sample

/-- Its last byte in the file has no room in memory. -/
def code : Pe.Section := ⟨".text", 3, 0x1000, 4, 0, 0x60000020⟩

/-- One byte in the file, and two zeros behind it. -/
def data : Pe.Section := ⟨".data", 3, 0x2000, 1, 3, 0xc0000040⟩

/-- It gives no size in memory. -/
def relocations : Pe.Section := ⟨".reloc", 0, 0x3000, 2, 1, 0x42000040⟩

/-- Past the end of the file, with more memory than there may be. -/
def lost : Pe.Section := ⟨".lost", 0x40000001, 0xffffffff, 8, 0, 0⟩

end Sample

theorem ofPe_mapped_data :
    let file : List UInt8 := [0x90, 0x91, 0xc3, 0xcc]
    let base : UInt64 := 0x140000000
    let pe : Pe.File := ⟨base, 0x1000, [Sample.code, Sample.data, Sample.relocations]⟩
    let image : SegmentedImage :=
      ⟨[⟨".text", 0x140001000, [0x90, 0x91, 0xc3], 0, true⟩, ⟨".data", 0x140002000, [0xcc], 2, false⟩,
        ⟨".reloc", 0x140003000, [0x91, 0xc3], 0, false⟩], some 0x140001000⟩
    let faulty : Pe.File := ⟨base, 0x1000, [Sample.data, Sample.lost, Sample.code]⟩
    let high : Pe.File := ⟨0xffffffffffff0000, 0x10000, [Sample.code]⟩
    ofPe file pe = .ok image ∧ (∃ entry, image.entry = some entry ∧ entry.toNat = base.toNat + 0x1000) ∧
      List.Forall₂ (Pe.Section.MapsTo file base) pe.sections image.segments ∧
      ofPe file faulty = .error (.truncated ".lost") ∧ ofPe file high = .error (.addressOverflow "entry") := by
  intro file base pe image faulty high
  have loaded : ofPe file pe = .ok image := by decide +kernel
  obtain ⟨hentry, hmaps⟩ := (ofPe_mapped file pe).1 image loaded
  have hlost : Sample.lost.Faulty file base (.truncated ".lost") := .unfillable (.truncated (by decide))
  have hfine : ∀ {base : UInt64} {s : Pe.Section}, (peSegment file base s).isOk = true → ∀ e, ¬s.Faulty file base e := by
    intro base s hok e he
    rw [peSegment_eq_error.mpr he] at hok
    cases hok
  have hdata : ∀ t ∈ [Sample.data], ∀ e, ¬t.Faulty file base e := by
    intro t ht
    rw [List.mem_singleton.mp ht]
    exact hfine (by decide +kernel)
  have hcode : ∀ t ∈ [Sample.code], ∀ e, ¬t.Faulty file 0xffffffffffff0000 e := by
    intro t ht
    rw [List.mem_singleton.mp ht]
    exact hfine (by decide +kernel)
  exact ⟨loaded, hentry, hmaps,
    ((ofPe_mapped file faulty).2 _).mpr (.inl ⟨[Sample.data], Sample.lost, [Sample.code], rfl, hdata, hlost⟩),
    ((ofPe_mapped file high).2 _).mpr (.inr ⟨hcode, by decide, rfl⟩)⟩

end SegmentedImage

end Lifter
