/-
  Lifter.Proofs.LastAddress — sections at the end of the address range.

  Both kinds of program files are loaded in one way: each section has a place and contents
  (`Placement`), its contents are made up first, and then the address behind them has to be
  one of 64 bits (`Program.check`). What is refused for its addresses is therefore not
  only a section with a byte past the last address: the address behind a section that ends
  with the last address is not one of 64 bits either, and a section without bytes has no
  last byte at all. Those two aside, the refusal says what it means, and of every file
  that is not refused each section can be read back (`LoadsInside`). It is so of all
  headers that a file may have, whatever reads them (`ofFile_addressOverflow`).
-/

import Lifter.Proofs.PeSegments

namespace Lifter

open Specification

/-! ## Placements -/

/-- A section as it is put into memory: the place of its first byte, which is not wrapped, and its bytes, or why
    there are none. -/
structure Placement where
  name : String
  start : Nat
  contents : Except ImageError (List UInt8)
  deriving DecidableEq, Repr

namespace Placement

/-- Its contents come first, then the address behind them. -/
def check (p : Placement) : Except ImageError Unit := do
  let bytes ← p.contents
  if UInt64.size ≤ p.start + bytes.length then .error (.addressOverflow p.name)

/-- There are contents, and they end before the last address. -/
def Fits (p : Placement) : Prop := ∃ bytes, p.contents = .ok bytes ∧ p.start + bytes.length < UInt64.size

/-- A byte would be past the last address. -/
def RunsOut (p : Placement) : Prop :=
  ∃ bytes, p.contents = .ok bytes ∧ ∃ i < bytes.length, UInt64.size ≤ p.start + i

/-- The last byte is at the last address, or there is none and the place is the one behind it. -/
def EndsAtTop (p : Placement) : Prop := ∃ bytes, p.contents = .ok bytes ∧ p.start + bytes.length = UInt64.size

/-- There are no bytes, and the place is further behind the last address. -/
def EmptyBeyond (p : Placement) : Prop := p.contents = .ok [] ∧ UInt64.size < p.start

variable {p : Placement}

theorem check_eq_error {err : ImageError} :
    p.check = .error err ↔ p.contents = .error err ∨
      (∃ bytes, p.contents = .ok bytes ∧ UInt64.size ≤ p.start + bytes.length) ∧ err = .addressOverflow p.name := by
  unfold check
  cases p.contents with
  | error e => simp [bind, Except.bind]
  | ok bytes =>
    by_cases h : UInt64.size ≤ p.start + bytes.length <;> simp [bind, Except.bind, pure, Except.pure, h, eq_comm]

theorem check_ne_error : (∀ err, p.check ≠ .error err) ↔ p.Fits := by
  unfold check Fits
  cases p.contents with
  | error e => simp [bind, Except.bind]
  | ok bytes =>
    by_cases h : UInt64.size ≤ p.start + bytes.length <;> simp [bind, Except.bind, pure, Except.pure, h]
    omega

/-- Why the address behind the contents is not one of 64 bits. -/
theorem overflows_iff :
    (∃ bytes, p.contents = .ok bytes ∧ UInt64.size ≤ p.start + bytes.length) ↔
      p.RunsOut ∨ p.EndsAtTop ∨ p.EmptyBeyond := by
  constructor
  · intro h
    obtain ⟨bytes, hbytes, hle⟩ := h
    by_cases htop : p.start + bytes.length = UInt64.size
    · exact .inr (.inl ⟨bytes, hbytes, htop⟩)
    · by_cases hempty : bytes = []
      · rw [hempty] at hbytes hle htop
        simp at hle htop
        exact .inr (.inr ⟨hbytes, by omega⟩)
      · have hpos := List.length_pos_iff.mpr hempty
        exact .inl ⟨bytes, hbytes, bytes.length - 1, by omega, by omega⟩
  · intro h
    rcases h with ⟨bytes, hbytes, i, hi, hle⟩ | ⟨bytes, hbytes, htop⟩ | ⟨hbytes, hlt⟩
    · exact ⟨bytes, hbytes, by omega⟩
    · exact ⟨bytes, hbytes, by omega⟩
    · exact ⟨[], hbytes, by simp; omega⟩

end Placement

/-- What a program file puts into memory, and its entry point, not wrapped. -/
structure Program where
  placements : List Placement
  entry : Nat
  deriving DecidableEq, Repr

def Program.check (program : Program) : Except ImageError Unit := do
  let _ ← program.placements.mapM Placement.check
  if UInt64.size ≤ program.entry then .error (.addressOverflow "entry")

theorem Program.check_parts {program : Program} {err : ImageError} :
    program.check = .error err ↔ program.placements.mapM Placement.check = .error err ∨
      (∃ units, program.placements.mapM Placement.check = .ok units) ∧ UInt64.size ≤ program.entry ∧
        err = .addressOverflow "entry" := by
  unfold check
  cases program.placements.mapM Placement.check with
  | error e => simp [bind, Except.bind]
  | ok units =>
    by_cases h : UInt64.size ≤ program.entry <;> simp [bind, Except.bind, pure, Except.pure, h, eq_comm]

theorem Program.check_eq_error {program : Program} {err : ImageError} :
    program.check = .error err ↔
      (∃ before p after, program.placements = before ++ p :: after ∧ (∀ q ∈ before, q.Fits) ∧ p.check = .error err) ∨
      (∀ q ∈ program.placements, q.Fits) ∧ UInt64.size ≤ program.entry ∧ err = .addressOverflow "entry" := by
  rw [check_parts, mapM_eq_error, mapM_succeeds_iff]
  simp only [Placement.check_ne_error]

theorem Program.check_ne_error {program : Program} :
    (∀ err, program.check ≠ .error err) ↔ (∀ p ∈ program.placements, p.Fits) ∧ program.entry < UInt64.size := by
  simp only [← Placement.check_ne_error, ← mapM_succeeds_iff]
  unfold check
  cases program.placements.mapM Placement.check with
  | error e => simp [bind, Except.bind]
  | ok units =>
    by_cases h : UInt64.size ≤ program.entry <;> simp [bind, Except.bind, pure, Except.pure, h]
    omega

/-- Contents are missing for other reasons than their addresses. -/
def Program.FaultsApart (program : Program) : Prop :=
  ∀ p ∈ program.placements, ∀ name, p.contents ≠ .error (.addressOverflow name)

theorem Placement.check_eq_overflow {program : Program} (h : program.FaultsApart) {p : Placement}
    (hp : p ∈ program.placements) (name : String) :
    p.check = .error (.addressOverflow name) ↔ p.name = name ∧ (p.RunsOut ∨ p.EndsAtTop ∨ p.EmptyBeyond) := by
  have hcontents := h p hp name
  rw [check_eq_error, overflows_iff]
  simp [hcontents, and_comm, eq_comm]

namespace SegmentedImage

variable {file : List UInt8} {err : ImageError} {segment : Segment}

/-- Bytes and so many zeros behind them. -/
def filled (contents : List UInt8 × Nat) : List UInt8 := contents.1 ++ List.replicate contents.2 0

/-- The segment is what was placed, and does not wrap. -/
structure Holds (p : Placement) (segment : Segment) : Prop where
  address : segment.address.toNat = p.start
  contents : p.contents = .ok segment.contents
  inside : segment.address.toNat + segment.contents.length < UInt64.size

def elfPlacement (file : List UInt8) (s : Elf.Section) : Placement :=
  ⟨s.name, s.address.toNat, (elfContents file s).map filled⟩

def pePlacement (file : List UInt8) (base : UInt64) (s : Pe.Section) : Placement :=
  ⟨s.name, base.toNat + s.virtualAddress.toNat, (peContents file s).map filled⟩

def elfProgram (file : List UInt8) (elf : Elf.File) : Program :=
  ⟨(elf.sections.filter (·.isMapped)).map (elfPlacement file), elf.entry.toNat⟩

def peProgram (file : List UInt8) (pe : Pe.File) : Program :=
  ⟨pe.sections.map (pePlacement file pe.base), pe.base.toNat + pe.entry.toNat⟩

/-- What is put into memory from a file with readable headers. -/
def program? (file : List UInt8) : Option Program :=
  if file.length < 16 then none
  else if Elf.magic.isPrefixOf file then (Elf.File.ofBytes? file).map (elfProgram file)
  else if Pe.magic.isPrefixOf file then (Pe.File.ofBytes? file).map (peProgram file)
  else none

/-! ## The two loaders -/

theorem elfSegment_check {s : Elf.Section} :
    elfSegment file s = .error err ↔ (elfPlacement file s).check = .error err := by
  unfold elfSegment Placement.check elfPlacement
  cases hcontents : elfContents file s with
  | error e => simp [bind, Except.bind, Except.map]
  | ok contents =>
    have hlength : (filled contents).length = s.size.toNat := (elfContents_eq_ok hcontents).length
    by_cases h : UInt64.size ≤ s.address.toNat + s.size.toNat <;>
      simp [bind, Except.bind, Except.map, pure, Except.pure, hlength, h]

theorem elfSegment_holds {s : Elf.Section} (h : elfSegment file s = .ok segment) :
    Holds (elfPlacement file s) segment := by
  have hmaps := elfSegment_eq_ok h
  refine ⟨congrArg UInt64.toNat hmaps.address, ?_, hmaps.inside⟩
  unfold elfSegment at h
  obtain ⟨⟨bytes, zeros⟩, hcontents, h⟩ := bind_eq_ok.mp h
  obtain ⟨-, h⟩ := unless_eq_ok.mp h
  cases h
  exact map_eq_ok.mpr ⟨_, hcontents, rfl⟩

theorem peSegment_check {base : UInt64} {s : Pe.Section} :
    peSegment file base s = .error err ↔ (pePlacement file base s).check = .error err := by
  unfold peSegment Placement.check pePlacement
  cases peContents file s with
  | error e => simp [bind, Except.bind, Except.map]
  | ok contents =>
    by_cases h : UInt64.size ≤ base.toNat + s.virtualAddress.toNat + (contents.1.length + contents.2) <;>
      simp [bind, Except.bind, Except.map, pure, Except.pure, filled, h]

theorem peSegment_holds {base : UInt64} {s : Pe.Section} (h : peSegment file base s = .ok segment) :
    Holds (pePlacement file base s) segment := by
  have hmaps := peSegment_eq_ok h
  refine ⟨hmaps.address, ?_, hmaps.inside⟩
  unfold peSegment at h
  obtain ⟨⟨bytes, zeros⟩, hcontents, h⟩ := bind_eq_ok.mp h
  obtain ⟨-, h⟩ := unless_eq_ok.mp h
  cases h
  exact map_eq_ok.mpr ⟨_, hcontents, rfl⟩

theorem ofElf_check {elf : Elf.File} : ofElf file elf = .error err ↔ (elfProgram file elf).check = .error err := by
  have hentry : ¬UInt64.size ≤ elf.entry.toNat := Nat.not_le_of_lt elf.entry.toNat_lt
  rw [ofElf_eq_error, Program.check_parts]
  simp [elfProgram, hentry, List.mapM_map, mapM_eq_error_congr fun _ _ => elfSegment_check, Function.comp_def]

theorem ofPe_check {pe : Pe.File} : ofPe file pe = .error err ↔ (peProgram file pe).check = .error err := by
  rw [ofPe_eq_error, Program.check_parts]
  simp only [peProgram, List.mapM_map, Function.comp_def, mapM_succeeds_iff, ne_eq,
    mapM_eq_error_congr fun _ _ => peSegment_check, peSegment_check]

theorem ofElf_holds {elf : Elf.File} {image : SegmentedImage} (h : ofElf file elf = .ok image) :
    List.Forall₂ Holds (elfProgram file elf).placements image.segments := by
  unfold elfProgram
  rw [List.forall₂_map_left_iff]
  exact (mapM_eq_ok.mp (ofElf_eq_ok.mp h).1).imp fun _ _ => elfSegment_holds

theorem ofPe_holds {pe : Pe.File} {image : SegmentedImage} (h : ofPe file pe = .ok image) :
    List.Forall₂ Holds (peProgram file pe).placements image.segments := by
  unfold peProgram
  rw [List.forall₂_map_left_iff]
  exact (mapM_eq_ok.mp (ofPe_eq_ok.mp h).1).imp fun _ _ => peSegment_holds

/-- A file with readable headers is loaded as one kind of program or the other. -/
theorem program?_cases {program : Program} (readable : program? file = some program) :
    (∃ elf, program = elfProgram file elf ∧ ofFile file = ofElf file elf) ∨
      ∃ pe, program = peProgram file pe ∧ ofFile file = ofPe file pe := by
  unfold program? at readable
  unfold ofFile
  by_cases hshort : file.length < 16
  · simp [hshort] at readable
  · rw [if_neg hshort] at readable ⊢
    by_cases helf : Elf.magic.isPrefixOf file = true
    · rw [if_pos helf] at readable ⊢
      obtain ⟨elf, hread, rfl⟩ := Option.map_eq_some_iff.mp readable
      exact .inl ⟨elf, rfl, by rw [hread]⟩
    · rw [if_neg helf] at readable ⊢
      by_cases hpe : Pe.magic.isPrefixOf file = true
      · rw [if_pos hpe] at readable ⊢
        obtain ⟨pe, hread, rfl⟩ := Option.map_eq_some_iff.mp readable
        exact .inr ⟨pe, rfl, by rw [hread]⟩
      · simp [hpe] at readable

theorem elfProgram_faultsApart (elf : Elf.File) : (elfProgram file elf).FaultsApart := by
  intro p hp name h
  obtain ⟨s, -, rfl⟩ := List.mem_map.mp hp
  cases elfContents_eq_error.mp (map_eq_error.mp h)

theorem peProgram_faultsApart (pe : Pe.File) : (peProgram file pe).FaultsApart := by
  intro p hp name h
  obtain ⟨s, -, rfl⟩ := List.mem_map.mp hp
  cases peContents_eq_error.mp (map_eq_error.mp h)

/-! ## Reading back -/

/-- Requests inside the bytes from a place are answered, and with these bytes where the segments agree. -/
def ReadsBack (image : SegmentedImage) (start : Nat) (bytes : List UInt8) : Prop :=
  ∀ (a : Address) (i n : Nat), a.offset.toNat = start + i → i + n ≤ bytes.length →
    (∃ got, (ByteSource.fill image a n).1 = .ok got) ∧
      ∀ got, (ByteSource.fill image a n).1 = .ok got → (∀ k < n, image.Agrees (a.offset + UInt64.ofNat k)) →
        got.val = (bytes.drop i).take n

theorem readsBack_of_holds {image : SegmentedImage} (regular : image.Regular) {p : Placement} {s : Segment}
    (hs : s ∈ image.segments) (h : Holds p s) : image.ReadsBack p.start s.contents := by
  intro a i n ha hn
  have hwrap : image.Unwrapped a.offset n := .inl regular
  have haddress := h.address
  have hinside := h.inside
  -- the addresses of the request are in the segment, at the positions from `i` on
  have hposition : ∀ k < n, s.contains (a.offset + UInt64.ofNat k) = true ∧
      (a.offset + UInt64.ofNat k - s.address).toNat = i + k := by
    intro k hk
    have hnat : (a.offset + UInt64.ofNat k).toNat = s.address.toNat + (i + k) := by
      rw [toNat_add_ofNat, Nat.mod_eq_of_lt (by omega)]
      omega
    have hle : s.address.toNat ≤ (a.offset + UInt64.ofNat k).toNat := by omega
    have hsub := Segment.toNat_sub_address hle
    rw [Segment.contains_iff, ← Segment.length_contents]
    omega
  constructor
  · exact fill_succeeds_iff.mpr ((answered_iff hwrap).mpr fun k hk => ⟨s, hs, (hposition k hk).1⟩)
  · intro got hgot hagrees
    apply List.ext_getElem?
    intro k
    by_cases hk : k < n
    · obtain ⟨b, hb, hstores⟩ := stores_of_answer? hwrap (answer?_of_fill hgot) hk
      obtain ⟨hcontains, hindex⟩ := hposition k hk
      have hbyte := ((hagrees k hk).stores hstores hs hcontains).2
      rw [Segment.byteAt?, hindex] at hbyte
      rw [hb, List.getElem?_take_of_lt hk, List.getElem?_drop, hbyte]
    · rw [List.getElem?_eq_none (by rw [got.property]; omega), List.getElem?_eq_none (by simp; omega)]

/-- What comes of loading the program: the addresses are refused of the first section that, its contents once made
    up, has a byte past the last address, ends with the last address or is empty and begins behind it, and of the entry
    point behind all sections. A program whose sections all end before the last address is loaded, and then each of
    them can be read back. -/
structure LoadsInside (program : Program) (loaded : Except ImageError SegmentedImage) : Prop where
  refused : ∀ name, loaded = .error (.addressOverflow name) ↔
    (∃ before p after, program.placements = before ++ p :: after ∧ (∀ q ∈ before, q.Fits) ∧ p.name = name ∧
      (p.RunsOut ∨ p.EndsAtTop ∨ p.EmptyBeyond)) ∨
    (∀ q ∈ program.placements, q.Fits) ∧ UInt64.size ≤ program.entry ∧ name = "entry"
  loads : (∃ image, loaded = .ok image) ↔ (∀ p ∈ program.placements, p.Fits) ∧ program.entry < UInt64.size
  readsBack : ∀ image, loaded = .ok image → ∀ p ∈ program.placements, ∃ bytes, p.contents = .ok bytes ∧
    p.start + bytes.length < UInt64.size ∧ image.ReadsBack p.start bytes

/-- It is so where loading refuses what the check refuses, and a loaded image holds what is placed. -/
theorem loadsInside_of_check {program : Program} {loaded : Except ImageError SegmentedImage}
    (hapart : program.FaultsApart) (hcheck : ∀ err, loaded = .error err ↔ program.check = .error err)
    (hholds : ∀ image, loaded = .ok image → image.Regular ∧ List.Forall₂ Holds program.placements image.segments) :
    LoadsInside program loaded := by
  refine ⟨?_, ?_, ?_⟩
  · intro name
    rw [hcheck, Program.check_eq_error]
    constructor
    · intro h
      rcases h with ⟨before, p, after, hsplit, hbefore, hp⟩ | ⟨hfits, hentry, heq⟩
      · have hmem : p ∈ program.placements := by simp [hsplit]
        exact .inl ⟨before, p, after, hsplit, hbefore, (Placement.check_eq_overflow hapart hmem name).mp hp⟩
      · cases heq
        exact .inr ⟨hfits, hentry, rfl⟩
    · intro h
      rcases h with ⟨before, p, after, hsplit, hbefore, hp⟩ | ⟨hfits, hentry, rfl⟩
      · have hmem : p ∈ program.placements := by simp [hsplit]
        exact .inl ⟨before, p, after, hsplit, hbefore, (Placement.check_eq_overflow hapart hmem name).mpr hp⟩
      · exact .inr ⟨hfits, hentry, rfl⟩
  · rw [← Program.check_ne_error]
    simp only [ne_eq, ← hcheck]
    cases loaded with
    | error err => simp
    | ok image => simp
  · intro image h p hp
    obtain ⟨regular, hheld⟩ := hholds image h
    obtain ⟨s, hs, hp⟩ := exists_of_forall₂ hheld.flip p hp
    refine ⟨s.contents, hp.contents, ?_, readsBack_of_holds regular hs hp⟩
    rw [← hp.address]
    exact hp.inside

theorem ofElf_loadsInside (file : List UInt8) (elf : Elf.File) : LoadsInside (elfProgram file elf) (ofElf file elf) :=
  loadsInside_of_check (elfProgram_faultsApart elf) (fun _ => ofElf_check) fun _ h => ⟨ofElf_regular h, ofElf_holds h⟩

theorem ofPe_loadsInside (file : List UInt8) (pe : Pe.File) : LoadsInside (peProgram file pe) (ofPe file pe) :=
  loadsInside_of_check (peProgram_faultsApart pe) (fun _ => ofPe_check) fun _ h => ⟨ofPe_regular h, ofPe_holds h⟩

/-- Of all headers of either kind, whatever the contents of the file behind them, the addresses are refused in this
    way; and so of every file with readable headers. -/
theorem ofFile_addressOverflow (file : List UInt8) :
    (∀ elf : Elf.File, LoadsInside (elfProgram file elf) (ofElf file elf)) ∧
      (∀ pe : Pe.File, LoadsInside (peProgram file pe) (ofPe file pe)) ∧
      ∀ program, program? file = some program → LoadsInside program (ofFile file) := by
  refine ⟨ofElf_loadsInside file, ofPe_loadsInside file, fun program readable => ?_⟩
  rcases program?_cases readable with ⟨elf, rfl, hload⟩ | ⟨pe, rfl, hload⟩
  · rw [hload]
    exact ofElf_loadsInside file elf
  · rw [hload]
    exact ofPe_loadsInside file pe

namespace Sample

/-- A number in so many bytes, the least significant first. -/
def little (size n : Nat) : List UInt8 := (List.range size).map fun i => UInt8.ofNat (n >>> (8 * i))

def header (name type flags address offset size : Nat) : List UInt8 :=
  little 4 name ++ little 4 type ++ little 8 flags ++ little 8 address ++ little 8 offset ++ little 8 size ++
    little 8 0 ++ little 8 1 ++ little 8 0

/-- The names `.shstrtab` and `.bss`, each behind a zero. -/
def names : List UInt8 :=
  [0, 0x2e, 0x73, 0x68, 0x73, 0x74, 0x72, 0x74, 0x61, 0x62, 0, 0x2e, 0x62, 0x73, 0x73, 0]

/-- A 64-bit file with the names of its sections and zeros from `address` on. -/
def bssFile (address size : Nat) : List UInt8 :=
  Elf.magic ++ [2, 1, 1] ++ little 9 0 ++ little 2 2 ++ little 2 0x3e ++ little 4 1 ++ little 8 0x1000 ++ little 8 0 ++
    little 8 64 ++ little 4 0 ++ little 2 64 ++ little 2 56 ++ little 2 0 ++ little 2 64 ++ little 2 3 ++ little 2 1 ++
    header 0 0 0 0 0 0 ++ header 1 3 0 0 256 16 ++ header 11 8 3 address 256 size ++ names

/-- What is put into memory from it. -/
def bssPlace (address size : Nat) : Placement := ⟨".bss", address, .ok (List.replicate size 0)⟩

end Sample

/-- Eight bytes that end one byte before the last address are there, and the last of them can be read. Of eight
    bytes that end one byte behind it nothing is. -/
theorem ofFile_addressOverflow_bss :
    let low := Sample.bssPlace 0xfffffffffffffff7 8
    let high := Sample.bssPlace 0xfffffffffffffff9 8
    let file := Sample.bssFile 0xfffffffffffffff7 8
    let a := Sample.longSpace.address 0xfffffffffffffffe
    program? file = some ⟨[low], 0x1000⟩ ∧
      (∃ image, ofFile file = .ok image ∧ ∃ got, (ByteSource.fill image a 1).1 = .ok got) ∧
      program? (Sample.bssFile 0xfffffffffffffff9 8) = some ⟨[high], 0x1000⟩ ∧ high.RunsOut ∧
      ofFile (Sample.bssFile 0xfffffffffffffff9 8) = .error (.addressOverflow ".bss") := by
  intro low high file a
  have hlow : program? file = some ⟨[low], 0x1000⟩ := by decide +kernel
  have hhigh : program? (Sample.bssFile 0xfffffffffffffff9 8) = some ⟨[high], 0x1000⟩ := by decide +kernel
  have hruns : high.RunsOut := ⟨_, rfl, 7, by decide, by decide⟩
  obtain ⟨-, hloads, hreads⟩ := (ofFile_addressOverflow file).2.2 _ hlow
  have hfits : ∀ p ∈ [low], p.Fits := by
    intro p hp
    rw [List.mem_singleton.mp hp]
    exact ⟨_, rfl, by decide⟩
  obtain ⟨image, himage⟩ := hloads.mpr ⟨hfits, by decide⟩
  obtain ⟨bytes, hbytes, -, hback⟩ := hreads image himage low (List.mem_singleton.mpr rfl)
  cases hbytes
  have hgot := (hback a 7 1 (by decide) (by decide)).1
  have hrefused := ((ofFile_addressOverflow (Sample.bssFile 0xfffffffffffffff9 8)).2.2 _ hhigh).refused ".bss"
  exact ⟨hlow, ⟨image, himage, hgot⟩, hhigh, hruns, hrefused.mpr
    (.inl ⟨[], high, [], rfl, fun q hq => absurd hq List.not_mem_nil, rfl, .inl hruns⟩)⟩

/-- The last of these bytes is at the last address and none is past it, yet the addresses of the section are refused. -/
theorem bss_refused_at_top :
    let top := Sample.bssPlace 0xfffffffffffffff8 8
    program? (Sample.bssFile 0xfffffffffffffff8 8) = some ⟨[top], 0x1000⟩ ∧ top.start + 7 = UInt64.size - 1 ∧
      ¬top.RunsOut ∧ ofFile (Sample.bssFile 0xfffffffffffffff8 8) = .error (.addressOverflow top.name) := by
  intro top
  refine ⟨by decide +kernel, by decide, ?_, by decide +kernel⟩
  intro h
  obtain ⟨bytes, hbytes, i, hi, hle⟩ := h
  cases hbytes
  have hsize : UInt64.size = 0xfffffffffffffff8 + 8 := rfl
  have hstart : top.start = 0xfffffffffffffff8 := rfl
  simp at hi
  omega

end SegmentedImage

end Lifter
