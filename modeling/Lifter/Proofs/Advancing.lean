/-
  Lifter.Proofs.Advancing — where the entries of a sweep lie.

  The next entry starts where the last one ends: behind an instruction, or one alignment
  unit on after a failure, at an address of 64 bits. Inside a space of fewer bits that is
  always further on, and an address outside the space ends the sweep, so its entries
  ascend. In a space of 64 bits no address is outside; behind its last offset the sweep
  goes on at the lowest ones (`sweep_ascends`, `nop_goes_round`).
-/

import Lifter.Proofs.Sweep

namespace Lifter

open Specification

/-- How many bytes an entry takes: those of the instruction, or one alignment unit after a failure. -/
def ListingEntry.stride (alignment : Nat) : ListingEntry → Nat
  | .decoded insn => insn.length
  | .failed _ _ => alignment

/-- Entries in the code space from `a` on, of one to eight bytes each, without a gap between them. -/
inductive Advances (l : Language) : UInt64 → List ListingEntry → Prop
  | nil (a : UInt64) : Advances l a []
  | cons {a : UInt64} {entry : ListingEntry} {entries : List ListingEntry} :
      entry.address = a → a ≤ l.codeSpace.highest → 1 ≤ entry.stride l.alignment →
      entry.stride l.alignment ≤ maxInstructionSize →
      Advances l (a + UInt64.ofNat (entry.stride l.alignment)) entries → Advances l a (entry :: entries)

/-- Entries at higher and higher addresses, none of which is below `start`. -/
structure Ascends (start : UInt64) (entries : List ListingEntry) : Prop where
  from_start : ∀ entry ∈ entries, start ≤ entry.address
  ascending : entries.Pairwise fun entry later => entry.address < later.address

instance (start : UInt64) (entries : List ListingEntry) : Decidable (Ascends start entries) :=
  decidable_of_iff _ ⟨fun h => ⟨h.1, h.2⟩, fun h => And.intro h.from_start h.ascending⟩

/-- The last byte of the entry is the last one of 64 bits, or it would lie beyond. -/
def ListingEntry.GoesRound (alignment : Nat) (entry : ListingEntry) : Prop :=
  UInt64.size ≤ entry.address.toNat + entry.stride alignment

/-! ## Steps -/

theorem Engine.language_run {σ τ α : Type} [ByteSource σ] (e : Engine σ) (offset : UInt64)
    (explain : Instruction → Except DecodeError (List α)) (sink : Sink α τ) (t : τ) :
    (e.run offset explain sink t).engine.language = e.language := by rw [run_engine]

namespace Sweep

variable {σ : Type} [ByteSource σ] {withOps : Bool} {s : Sweep σ} {a : UInt64}

/-- An attempt succeeds with the length of the instruction that is shown. -/
theorem attempt_ok {n : Nat} (h : (s.attempt withOps a).1 = .ok n) :
    (s.engine.disassemble a Sink.lines s.lines).result = .ok n := by
  unfold attempt at h
  cases hshown : (s.engine.disassemble a Sink.lines s.lines).result with
  | error err => simp only [hshown] at h; cases h
  | ok length =>
    simp only [hshown] at h
    split at h
    · obtain ⟨_, -, rfl⟩ := map_eq_ok.mp h
      rfl
    · exact h

theorem attempt_of_error {err : DecodeError} (h : (s.engine.disassemble a Sink.lines s.lines).result = .error err) :
    (s.attempt withOps a).1 = .error err := by
  simp only [attempt, h]

theorem language_attempt (withOps : Bool) (s : Sweep σ) (a : UInt64) :
    (s.attempt withOps a).2.engine.language = s.engine.language := by
  have hshown : (s.engine.disassemble a Sink.lines s.lines).engine.language = s.engine.language :=
    s.engine.language_run _ _ _ _
  unfold attempt
  cases hresult : (s.engine.disassemble a Sink.lines s.lines).result with
  | error err => simpa only [hresult] using hshown
  | ok length =>
    simp only [hresult]
    split
    · exact (Engine.language_run _ _ _ _ _).trans hshown
    · exact hshown

/-- What is shown lies in the space, and is as long as one of the encodings. -/
theorem attempt_found {n : Nat} (h : (s.attempt withOps a).1 = .ok n) :
    a ≤ s.engine.language.codeSpace.highest ∧ ∃ c ∈ s.engine.language.encodings, c.length = n := by
  obtain ⟨i, -, hfound, -, rfl, -⟩ := (s.engine.run_ends a _ _ _).of_ok (attempt_ok h)
  exact ⟨(s.engine.fetch_ok hfound).1.1, i.encoding, s.engine.fetch_declared hfound, rfl⟩

/-- Outside the space nothing is listed any more. -/
theorem attempt_outOfSpace (h : s.engine.language.codeSpace.highest < a) :
    (s.attempt withOps a).1 = .error (.outOfSpace a s.engine.language.codeSpace.name) := by
  have hends := s.engine.run_ends a (Engine.assembly s.engine.language) Sink.lines s.lines
  exact attempt_of_error (hends.unique (.notFound (by rw [s.engine.fetch_outOfSpace h]))).1

/-- Entries follow each other without a gap, whatever the source answers. -/
theorem entries_advance {l : Language} (hw : l.WellFormed) (withOps : Bool) (count : Nat) :
    ∀ (s : Sweep σ) (a : UInt64), s.engine.language = l → Advances l a (entries withOps count s a).1 := by
  induction count with
  | zero => intro s a _; exact .nil a
  | succ count ih =>
    rintro s a rfl
    have hlanguage := language_attempt withOps s a
    rcases hattempt : s.attempt withOps a with ⟨err | n, next⟩
    · rw [hattempt] at hlanguage
      simp only [entries, hattempt]
      split
      · exact .nil a
      · rename_i hends
        have hin : a ≤ s.engine.language.codeSpace.highest := by
          refine UInt64.not_lt.mp fun hout => hends ?_
          have herr := (congrArg Prod.fst hattempt).symm.trans (attempt_outOfSpace hout)
          cases herr
          rfl
        rw [hlanguage]
        exact .cons rfl hin hw.alignment_pos hw.alignment_le (ih next _ hlanguage)
    · rw [hattempt] at hlanguage
      obtain ⟨hin, c, hc, hlength⟩ := attempt_found (congrArg Prod.fst hattempt)
      have hencoding := hw.encodings c hc
      simp only [entries, hattempt]
      split
      · exact .nil a
      · refine .cons rfl hin ?_ ?_ (ih ⟨next.engine, .empty, .empty⟩ _ hlanguage)
        · exact hlength ▸ hencoding.length_pos
        · exact hlength ▸ hencoding.length_le

end Sweep

/-! ## Addresses -/

namespace Advances

variable {l : Language} {a : UInt64} {entries : List ListingEntry}

theorem each (h : Advances l a entries) : ∀ entry ∈ entries,
    entry.address ≤ l.codeSpace.highest ∧ entry.stride l.alignment ≤ maxInstructionSize := by
  induction h with
  | nil => simp
  | cons haddress hin _ hle _ ih =>
    intro entry hmem
    rcases List.mem_cons.mp hmem with rfl | hmem
    · exact ⟨haddress ▸ hin, hle⟩
    · exact ih entry hmem

/-- The addresses ascend until an entry reaches the end of the 64 bits. -/
theorem ascends (h : Advances l a entries) : ∃ before behind, entries = before ++ behind ∧ Ascends a before ∧
    (behind ≠ [] → ∃ last, before.getLast? = some last ∧ last.GoesRound l.alignment) := by
  induction h with
  | nil => exact ⟨[], [], rfl, ⟨by simp, .nil⟩, by simp⟩
  | @cons a entry entries haddress hin hpos hle _ ih =>
    by_cases hround : entry.GoesRound l.alignment
    · refine ⟨[entry], entries, rfl, ⟨fun other hmem => ?_, List.pairwise_singleton _ _⟩,
        fun _ => ⟨entry, rfl, hround⟩⟩
      rw [List.mem_singleton.mp hmem, haddress]
      exact UInt64.le_refl _
    · obtain ⟨before, behind, rfl, hascends, hlast⟩ := ih
      have hnext : a < a + UInt64.ofNat (entry.stride l.alignment) := by
        rw [ListingEntry.GoesRound, haddress] at hround
        rw [UInt64.lt_iff_toNat_lt, toNat_add_ofNat, Nat.mod_eq_of_lt (by omega)]
        omega
      refine ⟨entry :: before, behind, rfl, ⟨fun other hmem => ?_, ?_⟩, fun hne => ?_⟩
      · rcases List.mem_cons.mp hmem with rfl | hmem
        · rw [haddress]
          exact UInt64.le_refl _
        · exact UInt64.le_of_lt (UInt64.lt_of_lt_of_le hnext (hascends.from_start other hmem))
      · refine List.pairwise_cons.mpr ⟨fun other hmem => ?_, hascends.ascending⟩
        rw [haddress]
        exact UInt64.lt_of_lt_of_le hnext (hascends.from_start other hmem)
      · obtain ⟨last, hlast, hround⟩ := hlast hne
        exact ⟨last, by rw [List.getLast?_cons, hlast]; rfl, hround⟩

/-- Only a space of 64 bits reaches so far. -/
theorem addressSize_of_goesRound (hw : l.WellFormed) (h : Advances l a entries) {entry : ListingEntry}
    (hmem : entry ∈ entries) (hround : entry.GoesRound l.alignment) : l.codeSpace.addressSize = 8 := by
  have hle := hw.codeSpace_regular.addressSize_le
  by_contra hne
  have hextent : l.codeSpace.extent ≤ capacity 56 := capacity_mono (by omega)
  obtain ⟨hin, hstride⟩ := h.each entry hmem
  rw [UInt64.le_iff_toNat_le, Space.toNat_highest] at hin
  have hvalue : capacity 56 = 72057594037927936 := rfl
  simp only [ListingEntry.GoesRound, maxInstructionSize] at hround hstride
  rw [hvalue] at hextent
  have hsize : UInt64.size = 18446744073709551616 := rfl
  omega

end Advances

/-- The entries of a sweep lie in the code space, one behind the other. They ascend from the start up to one that
    reaches the end of the 64 bits, which only a code space of 64 bits lets it do; so in any other, all of them do. -/
theorem sweep_ascends {σ : Type} [ByteSource σ] {root : Element} (engine : Engine σ) (start : UInt64) (count : Nat)
    (withOps : Bool) (accepted : Language.ofElement root = .ok engine.language) :
    let l := engine.language
    let entries := (engine.sweep start count withOps).1.entries
    Advances l start entries ∧ (∀ entry ∈ entries, entry.address ≤ l.codeSpace.highest) ∧
      (∃ before behind, entries = before ++ behind ∧ Ascends start before ∧
        (behind ≠ [] → l.codeSpace.addressSize = 8 ∧
          ∃ last, before.getLast? = some last ∧ last.GoesRound l.alignment)) ∧
      (l.codeSpace.addressSize < 8 → Ascends start entries) := by
  intro l entries
  have hw := ofElement_wellFormed accepted
  have hadvances : Advances l start entries := Sweep.entries_advance hw withOps count (.start engine) start rfl
  obtain ⟨before, behind, hentries, hascends, hlast⟩ := hadvances.ascends
  have hsize : behind ≠ [] → l.codeSpace.addressSize = 8 := fun hne => by
    obtain ⟨last, hlast, hround⟩ := hlast hne
    refine hadvances.addressSize_of_goesRound hw ?_ hround
    rw [hentries]
    exact List.mem_append_left _ (List.mem_of_getLast? hlast)
  refine ⟨hadvances, fun entry hmem => (hadvances.each entry hmem).1,
    ⟨before, behind, hentries, hascends, fun hne => ⟨hsize hne, hlast hne⟩⟩,
    fun hsmall => ?_⟩
  have hnone : behind = [] := by
    by_contra hne
    exact Nat.ne_of_lt hsmall (hsize hne)
  rw [hentries, hnone, List.append_nil]
  exact hascends

namespace Sample

/-- A code space of 64 bits, and `nop`. -/
def vastRoot : Element :=
  ⟨"processor", [("name", "vast"), ("endian", "big")], "",
    [⟨"spaces", [("default", "ram")], "", [leaf "space" [("name", "ram"), ("size", "8")]]⟩,
      ⟨"instructions", [], "",
        [leaf "instruction" [("mnemonic", "nop"), ("length", "1"), ("mask", "0xff"), ("match", "0x10")]]⟩]⟩

def vastSpace : Space := ⟨⟨1⟩, "ram", .processor, 8, 1, true⟩

def vast : Language where
  name := "vast"
  bigEndian := true
  alignment := 1
  spaces := [constantSpace true, vastSpace, ⟨⟨2⟩, "unique", .internal, 4, 1, true⟩]
  constantSpace := constantSpace true
  codeSpace := vastSpace
  uniqueSpace := ⟨⟨2⟩, "unique", .internal, 4, 1, true⟩
  registerStore := ⟨[], []⟩
  tables := []
  contextFields := []
  encodings := [⟨"nop", 1, 0xff, 0x10, [], [], [], []⟩]

theorem vast_accepted : Language.ofElement vastRoot = .ok vast := by rfl

/-- One byte at the last offset of 64 bits, and one at the first. -/
def bothEnds : SegmentedImage :=
  ⟨[⟨"high", 0xffffffffffffffff, [0x10], 0, true⟩, ⟨"low", 0, [0x10], 0, true⟩], none⟩

end Sample

/-- In the sample language, a sweep ends with the last offset of `ram`, whatever the image has behind it. -/
theorem sweep_ascends_inc :
    let engine := Engine.ofLanguage (⟨0xfffe, [0x10, 0x10, 0x10]⟩ : FlatImage) Sample.language
    Language.ofElement Sample.root = .ok engine.language ∧
      (engine.sweep 0xfffe 8 false).1.entries.map (·.address) = [0xfffe, 0xffff] ∧
      engine.language.codeSpace.addressSize < 8 ∧ Ascends 0xfffe (engine.sweep 0xfffe 8 false).1.entries :=
  ⟨Sample.accepted, by rfl, by decide, (sweep_ascends _ 0xfffe 8 false Sample.accepted).2.2.2 (by decide)⟩

/-- In a space of 64 bits, it goes on with the first one. -/
theorem nop_goes_round :
    let engine := Engine.ofLanguage Sample.bothEnds Sample.vast
    Language.ofElement Sample.vastRoot = .ok engine.language ∧
      (engine.sweep 0xffffffffffffffff 2 false).1.entries.map (·.address) = [0xffffffffffffffff, 0] ∧
      ¬ Ascends 0xffffffffffffffff (engine.sweep 0xffffffffffffffff 2 false).1.entries :=
  ⟨Sample.vast_accepted, by rfl, by decide⟩

end Lifter
