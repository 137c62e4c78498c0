/-
  Lifter.Proofs.Alignment — what becomes of a sweep that starts aligned.

  A description sets the lengths of its instructions and the alignment apart from each
  other. After a failure a sweep goes on one alignment unit further, and stays aligned;
  after an instruction it stays aligned only if the length is a multiple of the unit.
  Once it has strayed it cannot come back: nothing is decoded at an address that is not
  aligned, and the next one is not aligned either. So a listing is a run of aligned
  entries, followed by misaligned failures only (`sweep_strays_once`), and there are
  none of these if no encoding has such a length.
-/

import Lifter.Proofs.Sweep
import Mathlib.Data.Nat.Init

namespace Lifter

open Specification

/-! ## Misaligned entries -/

theorem head?_append {text rest : String} {c : Char} (h : text.toList.head? = some c) :
    (text ++ rest).toList.head? = some c := by
  rw [String.toList_append, List.head?_append, h]
  rfl

namespace DecodeError

/-- The letter with which the text of an error starts. -/
def initial : DecodeError → Char
  | .byteSource _ _ _ => 'B'
  | .noMatch _ => 'N'
  | .outOfSpace _ _ | .invalidOperand _ _ _ => 'O'
  | .misaligned _ _ => 'A'
  | .callbackFault _ _ => 'C'

theorem head?_message (err : DecodeError) : err.message.toList.head? = some err.initial := by
  unfold message
  cases err with
  | byteSource | noMatch | outOfSpace | misaligned | invalidOperand | callbackFault =>
    dsimp only [initial]
    repeat apply head?_append
    decide

/-- No other error has the text of one about alignment. -/
theorem eq_misaligned_of_message {err : DecodeError} {a : UInt64} {n : Nat}
    (h : err.message = (misaligned a n).message) : ∃ a' n', err = .misaligned a' n' := by
  have hinitial : some err.initial = some 'A' := by
    rw [← err.head?_message, h, head?_message]
    rfl
  cases err with
  | misaligned a' n' => exact ⟨a', n', rfl⟩
  | byteSource | noMatch | outOfSpace | invalidOperand | callbackFault => cases hinitial

end DecodeError

/-- The entry of an address at which decoding failed because it is not aligned. -/
def ListingEntry.IsMisaligned : ListingEntry → Prop
  | .decoded _ => False
  | .failed _ text => ∃ a n, text = (DecodeError.misaligned a n).message

/-! ## Steps of a sweep -/

namespace Language.WellFormed

variable {l : Language} (h : l.WellFormed)

include h

theorem alignment_dvd_size : l.alignment ∣ UInt64.size := by
  have halignment := h.alignment
  simp only [List.mem_cons, List.not_mem_nil, or_false] at halignment
  rcases halignment with h | h | h | h <;> rw [h] <;> decide

/-- Addresses wrap at a multiple of the alignment. -/
theorem alignment_dvd_add (a : UInt64) (k : Nat) :
    l.alignment ∣ (a + UInt64.ofNat k).toNat ↔ l.alignment ∣ a.toNat + k := by
  rw [toNat_add_ofNat, Nat.dvd_mod_iff h.alignment_dvd_size]

/-- One alignment unit further on, an address is as well aligned as before. -/
theorem alignment_dvd_next (a : UInt64) :
    l.alignment ∣ (a + UInt64.ofNat l.alignment).toNat ↔ l.alignment ∣ a.toNat := by
  rw [h.alignment_dvd_add, Nat.dvd_add_self_right]

end Language.WellFormed

section Listing

variable {σ : Type} [ByteSource σ] {e : Engine σ} {withOps : Bool}

namespace Engine

variable {τ α : Type} {offset : UInt64} {explain : Instruction → Except DecodeError (List α)} {sink : Sink α τ} {t : τ}

/-- A call at an aligned offset does not complain of it. -/
theorem run_ne_misaligned (hexplain : ∀ i err, explain i = .error err → i.IsReserved err)
    (ha : e.language.alignment ∣ offset.toNat) {err : DecodeError}
    (herr : (e.run offset explain sink t).result = .error err) (a : UInt64) (n : Nat) : err ≠ .misaligned a n := by
  rintro rfl
  obtain ⟨-, hfound | ⟨i, -, hi⟩ | ⟨fault, hfault⟩⟩ := (e.run_ends offset explain sink t).of_error herr
  · -- it would have to be outside the space, and that comes first
    rcases inPlace_cases e.language offset with h | ⟨-, h⟩ | h
    · rw [e.fetch_outOfSpace h] at hfound
      cases hfound
    · exact h (Nat.mod_eq_zero_of_dvd ha)
    · exact e.not_inPlace_of_misaligned hfound h
  · obtain ⟨field, value, hi⟩ := hexplain i _ hi
    cases hi
  · cases hfault

/-- A call at an offset that is not aligned fails. -/
theorem run_of_unaligned (ha : ¬ e.language.alignment ∣ offset.toNat) :
    (e.run offset explain sink t).result = .error (.outOfSpace offset e.language.codeSpace.name) ∨
      (e.run offset explain sink t).result = .error (.misaligned offset e.language.alignment) := by
  have hmod : offset.toNat % e.language.alignment ≠ 0 := fun h => ha (Nat.dvd_of_mod_eq_zero h)
  have hends := e.run_ends offset explain sink t
  rcases inPlace_cases e.language offset with h | ⟨h, -⟩ | h
  · exact .inl (hends.unique (.notFound (by rw [e.fetch_outOfSpace h]))).1
  · exact .inr (hends.unique (.notFound (by rw [e.fetch_misaligned h hmod]))).1
  · exact absurd h.2 hmod

end Engine

theorem FailsAt.ne_misaligned {a : UInt64} {err : DecodeError} (h : FailsAt e withOps a err)
    (ha : e.language.alignment ∣ a.toNat) (a' : UInt64) (n : Nat) : err ≠ .misaligned a' n := by
  rcases h with hshown | ⟨-, -, hlifted⟩
  · exact Engine.run_ne_misaligned (fun i err h => Engine.assembly_error h) ha hshown a' n
  · exact Engine.run_ne_misaligned (fun i err h => Engine.microOps_error h) ha hlifted a' n

/-- Inside the space, nothing but the alignment is looked at. -/
theorem FailsAt.eq_misaligned {a : UInt64} {err : DecodeError} (h : FailsAt e withOps a err)
    (ha : ¬ e.language.alignment ∣ a.toNat) (hno : ¬ EndsListing a err) :
    err = .misaligned a e.language.alignment := by
  have hfails : (e.disassemble a Sink.lines .empty).result = .error (.outOfSpace a e.language.codeSpace.name) ∨
      (e.disassemble a Sink.lines .empty).result = .error (.misaligned a e.language.alignment) :=
    Engine.run_of_unaligned ha
  rcases h with hshown | ⟨⟨n, hshown⟩, -⟩
  · rcases hfails with hout | hmis
    · cases hshown.symm.trans hout
      exact absurd (.inr ⟨_, _, rfl⟩) hno
    · cases hshown.symm.trans hmis
      rfl
  · rcases hfails with hout | hmis
    · cases hshown.symm.trans hout
    · cases hshown.symm.trans hmis

/-- An instruction that is listed starts at an aligned address, and is as long as one of the encodings. -/
theorem IsEntry.found {insn : DecodedInstruction} (h : IsEntry e withOps insn) :
    e.language.alignment ∣ insn.address.toNat ∧ ∃ c ∈ e.language.encodings, c.length = insn.length := by
  rcases e.disassemble_cases insn.address with ⟨err, herr, -⟩ | ⟨i, text, hfound, hlength, -⟩
  · cases h.length.symm.trans herr
  · obtain ⟨hin, -, hcandidate⟩ := e.fetch_ok hfound
    have hlen : i.length = insn.length := by simpa using hlength.symm.trans h.length
    exact ⟨Nat.dvd_of_mod_eq_zero hin.2, i.encoding, (List.mem_filter.mp hcandidate).1, hlen⟩

/-! ## The whole listing -/

/-- A listing that is aligned up to an instruction whose length is not a multiple of the alignment, and
    misaligned behind it. -/
structure StraysOnce (alignment : Nat) (before behind : List ListingEntry) : Prop where
  aligned : ∀ entry ∈ before, alignment ∣ entry.address.toNat ∧ ¬ entry.IsMisaligned
  strayed : ∀ entry ∈ behind, ¬ alignment ∣ entry.address.toNat ∧ entry.IsMisaligned
  turn : behind ≠ [] → ∃ insn, before.getLast? = some (.decoded insn) ∧ ¬ alignment ∣ insn.length

namespace StraysOnce

variable {alignment : Nat} {before behind : List ListingEntry}

theorem nil (alignment : Nat) : StraysOnce alignment [] [] := ⟨by simp, by simp, by simp⟩

/-- One more aligned entry before. -/
theorem cons (h : StraysOnce alignment before behind) {entry : ListingEntry} (ha : alignment ∣ entry.address.toNat)
    (hno : ¬ entry.IsMisaligned) : StraysOnce alignment (entry :: before) behind := by
  refine ⟨fun other hmem => ?_, h.strayed, fun hne => ?_⟩
  · rcases List.mem_cons.mp hmem with rfl | hmem
    · exact ⟨ha, hno⟩
    · exact h.aligned other hmem
  · obtain ⟨insn, hlast, hlength⟩ := h.turn hne
    exact ⟨insn, by rw [List.getLast?_cons, hlast]; rfl, hlength⟩

end StraysOnce

/-- From an address that is not aligned there is no way back. -/
theorem Lists.misaligned (hw : e.language.WellFormed) {count : Nat} {a : UInt64} {entries : List ListingEntry}
    (h : Lists e withOps count a entries) (ha : ¬ e.language.alignment ∣ a.toNat) :
    ∀ entry ∈ entries, ¬ e.language.alignment ∣ entry.address.toNat ∧ entry.IsMisaligned := by
  induction h with
  | full | ended => simp
  | decoded hentry _ _ => exact absurd hentry.found.1 ha
  | @failed count a err rest hfail hno _ ih =>
    intro entry hmem
    rcases List.mem_cons.mp hmem with rfl | hmem
    · exact ⟨ha, _, _, congrArg _ (hfail.eq_misaligned ha hno)⟩
    · exact ih (mt (hw.alignment_dvd_next a).mp ha) entry hmem

/-- From an aligned one, there is until the first instruction that leaves the alignment. -/
theorem Lists.straysOnce (hw : e.language.WellFormed) {count : Nat} {a : UInt64} {entries : List ListingEntry}
    (h : Lists e withOps count a entries) (ha : e.language.alignment ∣ a.toNat) :
    ∃ before behind, entries = before ++ behind ∧ StraysOnce e.language.alignment before behind := by
  induction h with
  | full | ended => exact ⟨[], [], rfl, .nil _⟩
  | @decoded count insn rest hentry hrest ih =>
    have hnext := hw.alignment_dvd_add insn.address insn.length
    rw [Nat.dvd_add_right ha] at hnext
    by_cases hlength : e.language.alignment ∣ insn.length
    · obtain ⟨before, behind, rfl, hstrays⟩ := ih (hnext.mpr hlength)
      exact ⟨.decoded insn :: before, behind, rfl, hstrays.cons ha id⟩
    · refine ⟨[.decoded insn], rest, rfl, fun entry hmem => ?_, hrest.misaligned hw (mt hnext.mp hlength),
        fun _ => ⟨insn, rfl, hlength⟩⟩
      rw [List.mem_singleton.mp hmem]
      exact ⟨ha, id⟩
  | @failed count a err rest hfail _ _ ih =>
    obtain ⟨before, behind, rfl, hstrays⟩ := ih ((hw.alignment_dvd_next a).mpr ha)
    refine ⟨.failed a err.message :: before, behind, rfl, hstrays.cons ha ?_⟩
    rintro ⟨a', n, hmessage⟩
    obtain ⟨b, m, hmis⟩ := DecodeError.eq_misaligned_of_message hmessage
    exact hfail.ne_misaligned ha b m hmis

/-- A sweep that starts aligned strays at most once, and for good; if all lengths are multiples of the
    alignment, it never does. -/
theorem sweep_strays_once [ReadOnly σ] {root : Element} (engine : Engine σ) (start : UInt64) (count : Nat)
    (withOps : Bool) (accepted : Language.ofElement root = .ok engine.language)
    (aligned : engine.language.alignment ∣ start.toNat) :
    (∃ before behind, (engine.sweep start count withOps).1.entries = before ++ behind ∧
      StraysOnce engine.language.alignment before behind) ∧
    ((∀ c ∈ engine.language.encodings, engine.language.alignment ∣ c.length) →
      ∀ entry ∈ (engine.sweep start count withOps).1.entries,
        engine.language.alignment ∣ entry.address.toNat ∧ ¬ entry.IsMisaligned) := by
  have hlists := lists_sweep engine start count withOps
  obtain ⟨before, behind, hentries, hstrays⟩ := hlists.straysOnce (ofElement_wellFormed accepted) aligned
  refine ⟨⟨before, behind, hentries, hstrays⟩, fun hmultiples entry hmem => ?_⟩
  have hnone : behind = [] := by
    by_contra hne
    obtain ⟨insn, hlast, hlength⟩ := hstrays.turn hne
    have hlisted : .decoded insn ∈ (engine.sweep start count withOps).1.entries := by
      rw [hentries]
      exact List.mem_append_left _ (List.mem_of_getLast? hlast)
    obtain ⟨-, c, hc, hsame⟩ := (hlists.isEntry hlisted).found
    exact hlength (hsame ▸ hmultiples c hc)
  rw [hentries, hnone, List.append_nil] at hmem
  exact hstrays.aligned entry hmem

end Listing

namespace Sample

/-- An instruction of one byte, in a language aligned to two. -/
def nop : Encoding := ⟨"nop", 1, 0xff, 0x10, [], [], [], []⟩

def evenRoot : Element :=
  { rootWith (leaf "instruction" [("mnemonic", "nop"), ("length", "1"), ("mask", "0xff"), ("match", "0x10")]) with
    attributes := [("name", "sample"), ("endian", "big"), ("alignment", "2")] }

def even : Language := { languageWith nop with alignment := 2 }

theorem even_accepted : Language.ofElement evenRoot = .ok even := by rfl

end Sample

/-- A failure leads on to the next aligned address, and the `nop` there leads astray. -/
theorem sweep_strays_once_nop :
    let engine := Engine.ofLanguage (⟨0, [0x00, 0x00, 0x10, 0x10, 0x10]⟩ : FlatImage) Sample.even
    Language.ofElement Sample.evenRoot = .ok engine.language ∧ engine.language.alignment ∣ (0 : UInt64).toNat ∧
      (engine.sweep 0 4 true).1.entries.map (·.address) = [0, 2, 3, 5] ∧
      (∃ before behind, (engine.sweep 0 4 true).1.entries = before ++ behind ∧
        StraysOnce engine.language.alignment before behind) ∧
      ((∀ c ∈ engine.language.encodings, engine.language.alignment ∣ c.length) →
        ∀ entry ∈ (engine.sweep 0 4 true).1.entries,
          engine.language.alignment ∣ entry.address.toNat ∧ ¬ entry.IsMisaligned) :=
  ⟨Sample.even_accepted, by decide, by rfl, sweep_strays_once _ 0 4 true Sample.even_accepted (by decide)⟩

/-- Of two such instructions only the first is decoded. -/
theorem nop_strays :
    let engine := Engine.ofLanguage (⟨0, [0x10, 0x10]⟩ : FlatImage) Sample.even
    Language.ofElement Sample.evenRoot = .ok engine.language ∧ engine.language.alignment ∣ (0 : UInt64).toNat ∧
      ∃ entry ∈ (engine.sweep 0 2 false).1.entries,
        ¬ engine.language.alignment ∣ entry.address.toNat ∧ entry.IsMisaligned :=
  ⟨Sample.even_accepted, by decide, .failed 1 (DecodeError.misaligned 1 2).message, .tail _ (.head _), by decide,
    1, 2, rfl⟩

end Lifter
