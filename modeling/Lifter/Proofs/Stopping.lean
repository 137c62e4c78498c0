/-
  Lifter.Proofs.Stopping — where a sweep ends before its listing is full.

  The first request of a call is for as many bytes as the shortest encoding has that the
  context admits there. If it is refused, the source has nothing for this call, and that is
  what ends a sweep inside the code space (`sweep_stops`). Where one of the encodings has a
  single byte, the image has none there. Otherwise it may have a few, which are then
  neither decoded nor listed as failed (`pair_dropped`).
-/

import Lifter.Proofs.Wrapping
import Lifter.Proofs.Advancing

namespace Lifter

open Specification

section Stopping

variable {σ : Type} [ByteSource σ]

/-- The source refuses as many bytes at `a` as the shortest admitted encoding has. -/
def Engine.LacksShortest (e : Engine σ) (a : UInt64) : Prop :=
  ∃ c ∈ e.candidates a, (∀ d ∈ e.candidates a, c.length ≤ d.length) ∧
    ∃ failure, (ByteSource.fill e.source (e.language.codeAddress a) c.length).1 = .error failure

/-- There is nothing to list at `a`: it is outside the space, or the source lacks the bytes to try any encoding. -/
def Engine.NothingAt (e : Engine σ) (a : UInt64) : Prop :=
  e.language.codeSpace.highest < a ∨ e.language.InPlace a ∧ e.LacksShortest a

/-- Where the entry behind these would start. -/
def nextAddress (alignment : Nat) (start : UInt64) (entries : List ListingEntry) : UInt64 :=
  match entries.getLast? with
  | none => start
  | some last => last.address + UInt64.ofNat (last.stride alignment)

theorem nextAddress_cons (alignment : Nat) (start : UInt64) (entry : ListingEntry) (entries : List ListingEntry) :
    nextAddress alignment start (entry :: entries) =
      nextAddress alignment (entry.address + UInt64.ofNat (entry.stride alignment)) entries := by
  unfold nextAddress
  rw [List.getLast?_cons]
  cases entries.getLast? with
  | none => rfl
  | some last => rfl

/-! ## The first request -/

namespace Engine

variable {e : Engine σ} {a : UInt64}

omit [ByteSource σ] in
theorem candidate_length_pos (hw : e.language.WellFormed) {c : Encoding} (hc : c ∈ e.candidates a) : 1 ≤ c.length :=
  (hw.encodings c (List.mem_of_mem_filter hc)).length_pos

/-- The shortest candidate is the first. -/
theorem lacksShortest_iff (hsorted : e.language.encodings.Pairwise fun f g => f.length ≤ g.length) {first : Encoding}
    {rest : List Encoding} (hcandidates : e.candidates a = first :: rest) :
    e.LacksShortest a ↔
      ∃ failure, (ByteSource.fill e.source (e.language.codeAddress a) first.length).1 = .error failure := by
  have hfirst : ∀ d ∈ e.candidates a, first.length ≤ d.length := by
    have hsorted : (e.candidates a).Pairwise fun f g => f.length ≤ g.length := hsorted.filter _
    intro d hd
    rw [hcandidates] at hd hsorted
    rcases List.mem_cons.mp hd with rfl | hd
    · exact Nat.le_refl _
    · exact List.rel_of_pairwise_cons hsorted hd
  have hmem : first ∈ e.candidates a := by rw [hcandidates]; exact List.mem_cons_self
  constructor
  · rintro ⟨c, hc, hshortest, hfail⟩
    rwa [Nat.le_antisymm (hshortest first hmem) (hfirst c hc)] at hfail
  · exact fun hfail => ⟨first, hmem, hfirst, hfail⟩

/-- If the shortest encoding has one byte, there is none. -/
theorem LacksShortest.no_byte (h : e.LacksShortest a) (hw : e.language.WellFormed)
    (hone : ∃ c ∈ e.candidates a, c.length = 1) :
    ∃ failure, (ByteSource.fill e.source (e.language.codeAddress a) 1).1 = .error failure := by
  obtain ⟨c, hc, hshortest, hfail⟩ := h
  obtain ⟨d, hd, hlength⟩ := hone
  have hone : c.length = 1 := Nat.le_antisymm (hlength ▸ hshortest d hd) (candidate_length_pos hw hc)
  rwa [hone] at hfail

omit [ByteSource σ] in
/-- No byte further on, an address in place is the same. -/
theorem advance_nothing (hin : e.language.InPlace a) :
    (e.language.codeAddress a).advance (UInt64.ofNat 0) = e.language.codeAddress a := by
  rw [advance_codeAddress hin]
  exact congrArg e.language.codeAddress (UInt64.add_zero a)

/-- A request that is refused at the offset of its call is for the first candidate: nothing was read before, so
    none was tried before. -/
theorem first_of_refused (hw : e.language.WellFormed) (hin : e.language.InPlace a) {q : Request}
    (hq : q ∈ (e.observed.fetch a).source.requests) {failure : SourceFailure} (hfail : q.outcome = .error failure)
    (hoffset : q.address.offset = a) :
    ∃ first rest, e.candidates a = first :: rest ∧ q.address = e.language.codeAddress a ∧ q.size = first.length := by
  have hs := e.fetch_search hin
  obtain ⟨-, -, pre, c, post, hsplit, -, haddress, hsize, hpre⟩ := hs.of_failed hq hfail
  have hnothing : (e.observed.fetch a).bytes.length = 0 := by
    rw [hs.final_eq, (last_of_refused hw hin hq hfail).2.mp hoffset]
    rfl
  rw [hnothing] at haddress hsize hpre
  have hpre : pre = [] := by
    refine List.eq_nil_iff_forall_not_mem.mpr fun d hd => ?_
    have hpos := candidate_length_pos hw (c := d) (a := a) (by rw [hsplit]; exact List.mem_append_left _ hd)
    have hle := (hpre d hd).1
    omega
  rw [hpre, List.nil_append] at hsplit
  exact ⟨c, post, hsplit, haddress.trans (advance_nothing hin), hsize⟩

variable [ReadOnly σ]

/-- If it lacks the bytes for the first request, the call fails with that. -/
theorem LacksShortest.fetch (h : e.LacksShortest a) (hw : e.language.WellFormed)
    (hsorted : e.language.encodings.Pairwise fun f g => f.length ≤ g.length) (hin : e.language.InPlace a) :
    ∃ n cause, (e.fetch a).result = .error (.byteSource a n cause) := by
  rw [fetch_inPlace e hin]
  cases hcandidates : e.candidates a with
  | nil =>
    obtain ⟨c, hc, -⟩ := h
    rw [hcandidates] at hc
    cases hc
  | cons first rest =>
    obtain ⟨failure, hfail⟩ := (lacksShortest_iff hsorted hcandidates).mp h
    have hfirst : ([] : List UInt8).length < first.length :=
      candidate_length_pos hw (by rw [hcandidates]; exact List.mem_cons_self)
    have hstart : (e.language.codeAddress a).advance (UInt64.ofNat ([] : List UInt8).length) =
        e.language.codeAddress a := advance_nothing hin
    rw [select_of_lt e.source hfirst, hstart]
    rcases hanswer : ByteSource.fill e.source (e.language.codeAddress a) (first.length - ([] : List UInt8).length) with
      ⟨failure' | more, next⟩
    · cases failure' with
      | refused cause =>
        refine ⟨first.length, cause, ?_⟩
        simp only [SourceFailure.error, offset_codeAddress hin]
        rfl
      | broke fault => exact absurd (congrArg Prod.fst hanswer) (ReadOnly.unbroken _ _ _ fault)
    · cases (congrArg Prod.fst hanswer).symm.trans hfail

/-- A call that fails over the bytes at its own offset made its first request in vain. -/
theorem lacksShortest_of_fetch (hw : e.language.WellFormed)
    (hsorted : e.language.encodings.Pairwise fun f g => f.length ≤ g.length) {n : Nat} {cause : SourceError}
    (h : (e.fetch a).result = .error (.byteSource a n cause)) : e.language.InPlace a ∧ e.LacksShortest a := by
  rcases e.fetch_error h with ⟨-, hout | hmis⟩ | ⟨hin, hno | ⟨q, hq, failure, hfail, herr⟩⟩
  · cases hout
  · cases hmis
  · cases hno
  · have hoffset : q.address.offset = a := by cases failure <;> cases herr; rfl
    obtain ⟨first, rest, hcandidates, haddress, hsize⟩ := first_of_refused hw hin hq hfail hoffset
    have hanswered := e.requests_answered a q hq
    rw [Request.AnsweredBy, hfail, haddress, hsize] at hanswered
    exact ⟨hin, (lacksShortest_iff hsorted hcandidates).mpr ⟨failure, map_eq_error.mp hanswered.symm⟩⟩

end Engine

/-! ## The end of a listing -/

section Listing

variable {e : Engine σ} {withOps : Bool} {a : UInt64}

/-- An error that ends a listing is one of the search. -/
theorem FailsAt.fetch {err : DecodeError} (h : FailsAt e withOps a err) (hends : EndsListing a err) :
    (e.fetch a).result = .error err := by
  -- it is neither about a field of an instruction nor about the sink
  have hrun : ∀ {τ α : Type} {explain : Instruction → Except DecodeError (List α)} {sink : Sink α τ} {t : τ},
      (∀ i err, explain i = .error err → i.IsReserved err) →
      (e.run a explain sink t).result = .error err → (e.fetch a).result = .error err := by
    intro τ α explain sink t hexplain herr
    obtain ⟨-, hfound | ⟨i, -, hi⟩ | ⟨fault, rfl⟩⟩ := (e.run_ends a explain sink t).of_error herr
    · exact hfound
    · obtain ⟨field, value, rfl⟩ := hexplain i err hi
      rcases hends with ⟨n, cause, hbytes⟩ | ⟨a', space, hout⟩
      · cases hbytes
      · cases hout
    · rcases hends with ⟨n, cause, hbytes⟩ | ⟨a', space, hout⟩
      · cases hbytes
      · cases hout
  rcases h with hshown | ⟨-, -, hlifted⟩
  · exact hrun (fun i err h => Engine.assembly_error h) hshown
  · exact hrun (fun i err h => Engine.microOps_error h) hlifted

variable [ReadOnly σ]

/-- A call fails so that a listing ends if and only if there is nothing. -/
theorem nothingAt_iff (hw : e.language.WellFormed)
    (hsorted : e.language.encodings.Pairwise fun f g => f.length ≤ g.length) :
    e.NothingAt a ↔ ∃ err, (e.fetch a).result = .error err ∧ EndsListing a err := by
  constructor
  · rintro (hout | ⟨hin, hlacks⟩)
    · exact ⟨_, by rw [e.fetch_outOfSpace hout], .inr ⟨_, _, rfl⟩⟩
    · obtain ⟨n, cause, herr⟩ := hlacks.fetch hw hsorted hin
      exact ⟨_, herr, .inl ⟨n, cause, rfl⟩⟩
  · rintro ⟨err, herr, ⟨n, cause, rfl⟩ | ⟨a', space, rfl⟩⟩
    · exact .inr (Engine.lacksShortest_of_fetch hw hsorted herr)
    · rcases Engine.inPlace_cases e.language a with hout | ⟨hle, ha⟩ | hin
      · exact .inl hout
      · rw [e.fetch_misaligned hle ha] at herr
        cases herr
      · exact absurd hin (e.not_inPlace_of_outOfSpace herr)

/-- Where there is nothing, every call fails with what ends a listing. -/
theorem FailsAt.of_nothingAt (hw : e.language.WellFormed)
    (hsorted : e.language.encodings.Pairwise fun f g => f.length ≤ g.length) (h : e.NothingAt a) :
    ∃ err, FailsAt e withOps a err ∧ EndsListing a err := by
  obtain ⟨err, herr, hends⟩ := (nothingAt_iff hw hsorted).mp h
  exact ⟨err, .inl ((e.run_ends a (Engine.assembly e.language) Sink.lines .empty).unique (.notFound herr)).1, hends⟩

/-- There is something at every address that is listed. -/
theorem Lists.something (hw : e.language.WellFormed)
    (hsorted : e.language.encodings.Pairwise fun f g => f.length ≤ g.length) {count : Nat}
    {entries : List ListingEntry} (h : Lists e withOps count a entries) :
    ∀ entry ∈ entries, ¬ e.NothingAt entry.address := by
  induction h with
  | full | ended => simp
  | @decoded count insn rest hentry _ ih =>
    intro entry hmem
    rcases List.mem_cons.mp hmem with rfl | hmem
    · intro hnothing
      obtain ⟨err, hfail, -⟩ := FailsAt.of_nothingAt hw hsorted hnothing
      exact hentry.not_failsAt hfail
    · exact ih entry hmem
  | @failed count a err rest hfail hno _ ih =>
    intro entry hmem
    rcases List.mem_cons.mp hmem with rfl | hmem
    · intro hnothing
      obtain ⟨err', hfail', hends⟩ := FailsAt.of_nothingAt hw hsorted hnothing
      exact hno (hfail.unique hfail' ▸ hends)
    · exact ih entry hmem

/-- A listing that is not full ends where there is nothing. -/
theorem Lists.stops (hw : e.language.WellFormed)
    (hsorted : e.language.encodings.Pairwise fun f g => f.length ≤ g.length) {count : Nat}
    {entries : List ListingEntry} (h : Lists e withOps count a entries) (hshort : entries.length < count) :
    e.NothingAt (nextAddress e.language.alignment a entries) := by
  induction h with
  | full => cases hshort
  | decoded hentry _ ih =>
    rw [nextAddress_cons]
    exact ih (Nat.lt_of_succ_lt_succ hshort)
  | ended hfail hends => exact (nothingAt_iff hw hsorted).mpr ⟨_, hfail.fetch hends, hends⟩
  | failed _ _ _ ih =>
    rw [nextAddress_cons]
    exact ih (Nat.lt_of_succ_lt_succ hshort)

/-- The entries of a sweep follow each other without a gap, and there is something at the address of each. If there
    are fewer than were asked for, there is nothing at the next address; if it is in the space and one of the encodings
    that the context admits there has a single byte, the source has not even that. -/
theorem sweep_stops {root : Element} (engine : Engine σ) (start : UInt64) (count : Nat) (withOps : Bool)
    (accepted : Language.ofElement root = .ok engine.language) :
    let entries := (engine.sweep start count withOps).1.entries
    let next := nextAddress engine.language.alignment start entries
    Advances engine.language start entries ∧ (∀ entry ∈ entries, ¬ engine.NothingAt entry.address) ∧
    (entries.length < count → engine.NothingAt next ∧
      (next ≤ engine.language.codeSpace.highest → (∃ c ∈ engine.candidates next, c.length = 1) →
        ∃ failure, (ByteSource.fill engine.source (engine.language.codeAddress next) 1).1 = .error failure)) := by
  intro entries next
  have hw := ofElement_wellFormed accepted
  obtain ⟨_, _, _, _, hordered⟩ := ofElement_encodings accepted
  have hlists : Lists engine withOps count start entries := lists_sweep engine start count withOps
  refine ⟨Sweep.entries_advance hw withOps count (.start engine) start rfl, hlists.something hw hordered.ascending,
    fun hshort => ?_⟩
  have hnothing := hlists.stops hw hordered.ascending hshort
  refine ⟨hnothing, fun hin hone => ?_⟩
  rcases hnothing with hout | ⟨-, hlacks⟩
  · exact absurd hin (UInt64.not_le.mpr hout)
  · exact hlacks.no_byte hw hone

end Listing

end Stopping

namespace Sample

/-- A single byte, with which neither instruction starts. -/
def lone : FlatImage := ⟨0, [0x07]⟩

end Sample

/-- With an instruction of one byte in the language, that byte is listed as failed, and the sweep ends behind it. -/
theorem sweep_stops_single :
    let engine := Engine.ofLanguage Sample.lone (Sample.narrow [Sample.single, Sample.pair])
    let listing := (engine.sweep 0 3 false).1
    Language.ofElement (Sample.narrowRoot [Sample.pairElement, Sample.singleElement]) = .ok engine.language ∧
      listing.entries.map (fun entry => (entry.address, entry.isDecoded)) = [(0, false)] ∧
      nextAddress engine.language.alignment 0 listing.entries = 1 ∧ engine.NothingAt 1 ∧
      ∃ failure, (ByteSource.fill Sample.lone (engine.language.codeAddress 1) 1).1 = .error failure :=
  have stops := (sweep_stops (Engine.ofLanguage Sample.lone (Sample.narrow [Sample.single, Sample.pair])) 0 3 false
    Sample.split_accepted).2.2 (by decide)
  ⟨Sample.split_accepted, by rfl, by rfl, stops.1, stops.2 (by decide) ⟨Sample.single, by decide, rfl⟩⟩

/-- Without one, the sweep ends at that byte, which is in no entry. -/
theorem pair_dropped :
    let engine := Engine.ofLanguage Sample.lone (Sample.narrow [Sample.pair])
    let listing := (engine.sweep 0 1 false).1
    Language.ofElement (Sample.narrowRoot [Sample.pairElement]) = .ok engine.language ∧
      listing.entries.length < 1 ∧ nextAddress engine.language.alignment 0 listing.entries = 0 ∧
      engine.language.InPlace 0 ∧
      (ByteSource.fill Sample.lone (engine.language.codeAddress 0) 1).1 = .ok ⟨[0x07], rfl⟩ :=
  ⟨Sample.pair_accepted, by decide, by rfl, ⟨by decide, by decide⟩, by rfl⟩

end Lifter
