/-
  Lifter.Proofs.Requests — what a call asks of its byte source.

  `ContiguousRequests` is what a source may expect of the requests of one call: they
  follow each other from the offset on without a gap, the first failure ends them, and
  no byte is asked for that is not part of the instruction found. A refused request is
  the one that the error names; it starts at the offset itself only if nothing was read
  before. `requests_contiguous` says it of every call on an accepted language.
-/

import Lifter.Image.Flat
import Lifter.Proofs.Calls
import Lifter.Proofs.Reading

namespace Lifter

/-! ## Sizes -/

/-- How many bytes requests are for, taken together. -/
def totalSize : List Request → Nat
  | [] => 0
  | q :: requests => q.size + totalSize requests

/-- Answers have the size that was asked for. -/
theorem Chained.totalSize_eq {start : Address} {requests : List Request} :
    ∀ {got : Nat}, Chained start got requests → (∀ q ∈ requests, ∃ bytes, q.outcome = .ok bytes) →
      totalSize requests = (suppliedBytes requests).length := by
  induction requests with
  | nil => intro got _ _; rfl
  | cons q requests ih =>
    intro got h hall
    obtain ⟨bytes, hbytes⟩ := hall q List.mem_cons_self
    simp only [Chained, hbytes] at h
    obtain ⟨-, -, hlen, hrest⟩ := h
    have hsupplied : q.supplied = bytes := by simp only [Request.supplied, hbytes]
    rw [totalSize, suppliedBytes_cons, List.length_append, hsupplied, hlen,
      ih hrest fun q' hq' => hall q' (List.mem_cons_of_mem _ hq')]

/-- In a space of at least 256 offsets, a step of fewer bytes than that leads elsewhere. -/
theorem Space.wrap_add_eq_iff {s : Space} (hs : 1 ≤ s.addressSize) {offset : UInt64} (ho : offset ≤ s.highest)
    {k : Nat} (hk : k < 256) : s.wrap (offset + UInt64.ofNat k) = offset ↔ k = 0 := by
  have hmany : capacity 8 ≤ s.extent := capacity_mono (by omega)
  have hbyte : capacity 8 = 256 := rfl
  have hbound : offset.toNat < s.extent := by
    rw [UInt64.le_iff_toNat_le, s.toNat_highest] at ho
    omega
  rw [← UInt64.toNat_inj, s.toNat_wrap_add]
  constructor
  · intro h
    rcases Nat.lt_or_ge (offset.toNat + k) s.extent with hlt | hge
    · rw [Nat.mod_eq_of_lt hlt] at h
      omega
    · rw [Nat.mod_eq_sub_mod hge, Nat.mod_eq_of_lt (by omega)] at h
      omega
  · rintro rfl
    exact Nat.mod_eq_of_lt hbound

/-! ## The requests of one call -/

/-- The requests of a call at `offset` with this result, after which these are the latest bytes. -/
structure ContiguousRequests (l : Language) (offset : UInt64) (result : Except DecodeError Nat)
    (lastBytes : List UInt8) (requests : List Request) : Prop where
  outOfSpace : ∀ a space, result = .error (.outOfSpace a space) → requests = []
  misaligned : ∀ a n, result = .error (.misaligned a n) → requests = []
  first : ∀ q, requests.head? = some q → q.address.offset = offset
  chained : Chained (l.codeAddress offset) 0 requests
  ok : ∀ n, result = .ok n →
    totalSize requests = n ∧ lastBytes = suppliedBytes requests ∧ lastBytes.length = n
  error : ∀ err, result = .error err → lastBytes = []
  byteSource : ∀ a n cause, result = .error (.byteSource a n cause) →
    ∃ q, requests.getLast? = some q ∧ q.outcome = .error (.refused cause) ∧ q.address.offset = a ∧ q.size = n ∧
      (a = offset ↔ suppliedBytes requests = [])

namespace Engine

variable {σ : Type} [ByteSource σ] {e : Engine σ} {offset : UInt64}

/-- The first request is for the offset itself. -/
theorem head?_requests {q : Request} (h : (e.observed.fetch offset).source.requests.head? = some q) :
    q.address.offset = offset := by
  by_cases hin : e.language.InPlace offset
  · have hchained := (e.fetch_search hin).chained
    cases hrs : (e.observed.fetch offset).source.requests with
    | nil => rw [hrs] at h; cases h
    | cons q' rest =>
      rw [hrs] at h hchained
      cases h
      obtain ⟨haddr, -⟩ := hchained
      rw [haddr, advance_codeAddress hin]
      simpa using offset_codeAddress hin
  · rw [e.requests_of_not_inPlace hin] at h
    cases h

theorem chained_requests : Chained (e.language.codeAddress offset) 0 (e.observed.fetch offset).source.requests := by
  by_cases hin : e.language.InPlace offset
  · exact (e.fetch_search hin).chained
  · rw [e.requests_of_not_inPlace hin]
    trivial

/-- A request that is refused is the last one. It starts at the offset only if nothing was read before. -/
theorem last_of_refused (hw : e.language.WellFormed) (hin : e.language.InPlace offset) {q : Request}
    (hq : q ∈ (e.observed.fetch offset).source.requests) {failure : SourceFailure}
    (hfail : q.outcome = .error failure) :
    (e.observed.fetch offset).source.requests.getLast? = some q ∧
      (q.address.offset = offset ↔ suppliedBytes (e.observed.fetch offset).source.requests = []) := by
  have hs := e.fetch_search hin
  obtain ⟨-, hlast, pre, c, post, hsplit, hlt, haddr, -, -⟩ := hs.of_failed hq hfail
  have hc : c ∈ e.language.encodings := by
    refine (List.mem_filter.mp (?_ : c ∈ e.candidates offset)).1
    rw [hsplit]
    simp
  have hshort : c.length ≤ 8 := (hw.encodings c hc).length_le
  rw [hs.final_eq] at hlt haddr
  refine ⟨hlast, ?_⟩
  rw [haddr, advance_codeAddress hin, ← List.length_eq_zero_iff]
  exact Space.wrap_add_eq_iff hw.codeSpace_regular.addressSize_pos hin.1 (by omega)

/-- All bytes that were read for an instruction are its own. -/
theorem requests_of_ok (hsorted : e.language.encodings.Pairwise fun f g => f.length ≤ g.length) {i : Instruction}
    (h : (e.fetch offset).result = .ok i) :
    totalSize (e.observed.fetch offset).source.requests = i.length ∧
      (e.fetch offset).bytes = suppliedBytes (e.observed.fetch offset).source.requests ∧
      (e.fetch offset).bytes.length = i.length := by
  have hs := e.fetch_search (e.fetch_ok h).1
  rw [(e.fetch_observed offset).1, (e.fetch_observed offset).2.1] at hs
  have hlen := hs.length_of_ok (hsorted.filter _) h
  have hanswered : ∀ q ∈ (e.observed.fetch offset).source.requests, ∃ bytes, q.outcome = .ok bytes := by
    intro q hq
    rcases hout : q.outcome with failure | bytes
    · rw [h] at hs
      cases (hs.of_failed hq hout).1
    · exact ⟨bytes, rfl⟩
  refine ⟨?_, hs.final_eq, hlen⟩
  rw [chained_requests.totalSize_eq hanswered, ← hs.final_eq, hlen]

/-- Whatever a call makes of the instruction it finds, if that fails only over a reserved value. -/
theorem run_contiguous {τ α : Type} (hw : e.language.WellFormed)
    (hsorted : e.language.encodings.Pairwise fun f g => f.length ≤ g.length)
    {explain : Instruction → Except DecodeError (List α)}
    (hexplain : ∀ i err, explain i = .error err → i.IsReserved err) (sink : Sink α τ) (t : τ) :
    ContiguousRequests e.language offset (e.run offset explain sink t).result
      (e.run offset explain sink t).engine.lastBytes
      (e.observed.run offset explain sink t).engine.source.requests := by
  rw [requests_run]
  have hends := e.run_ends offset explain sink t
  -- an error about the source or the offset is that of the search
  have hfetch : ∀ err, (e.run offset explain sink t).result = .error err →
      (∀ a field value, err ≠ .invalidOperand a field value) → (∀ a message, err ≠ .callbackFault a message) →
      (e.fetch offset).result = .error err := by
    intro err herr hoperand hfault
    obtain ⟨-, hfound | ⟨i, -, he⟩ | ⟨fault, rfl⟩⟩ := hends.of_error herr
    · exact hfound
    · obtain ⟨field, value, rfl⟩ := hexplain i err he
      exact absurd rfl (hoperand _ _ _)
    · exact absurd rfl (hfault _ _)
  refine ⟨fun a space herr => ?_, fun a n herr => ?_, fun q => head?_requests, chained_requests, fun n hok => ?_,
    fun err herr => ?_, fun a n cause herr => ?_⟩
  · have hfound := hfetch _ herr (by simp) (by simp)
    exact e.requests_of_not_inPlace (e.not_inPlace_of_outOfSpace hfound)
  · have hfound := hfetch _ herr (by simp) (by simp)
    exact e.requests_of_not_inPlace (e.not_inPlace_of_misaligned hfound)
  · obtain ⟨i, records, hfound, -, rfl, hused⟩ := hends.of_ok hok
    obtain ⟨hsum, hbytes, hlen⟩ := requests_of_ok hsorted hfound
    have hlast : (e.run offset explain sink t).engine.lastBytes = (e.fetch offset).bytes := by
      rw [lastBytes, hused, run_fetched]
      exact List.take_of_length_le (Nat.le_of_eq hlen)
    exact ⟨hsum, hlast.trans hbytes, by rw [hlast, hlen]⟩
  · rw [lastBytes, (hends.of_error herr).1, List.take_zero]
  · have hfound := hfetch _ herr (by simp) (by simp)
    rcases e.fetch_error hfound with ⟨-, hout | hmis⟩ | ⟨hin, hno | ⟨q, hq, failure, hfail, herr⟩⟩
    · cases hout
    · cases hmis
    · cases hno
    · cases failure <;> cases herr
      obtain ⟨hlast, hiff⟩ := last_of_refused hw hin hq hfail
      exact ⟨q, hlast, hfail, rfl, rfl, hiff⟩

/-- The requests of every call are contiguous, and none is for more than the instruction found. -/
theorem requests_contiguous {root : Element} (engine : Engine σ) (offset : UInt64)
    (accepted : Language.ofElement root = .ok engine.language) :
    (∀ (τ : Type) (sink : Sink MicroOp τ) (t : τ),
      ContiguousRequests engine.language offset (engine.decode offset sink t).result
        (engine.decode offset sink t).engine.lastBytes
        (engine.observed.decode offset sink t).engine.source.requests) ∧
    (∀ (τ : Type) (sink : Sink AssemblyLine τ) (t : τ),
      ContiguousRequests engine.language offset (engine.disassemble offset sink t).result
        (engine.disassemble offset sink t).engine.lastBytes
        (engine.observed.disassemble offset sink t).engine.source.requests) := by
  have hw := ofElement_wellFormed accepted
  obtain ⟨_, _, _, _, hordered⟩ := ofElement_encodings accepted
  exact ⟨fun _ sink t => run_contiguous hw hordered.ascending (fun i err h => microOps_error h) sink t,
    fun _ sink t => run_contiguous hw hordered.ascending (fun i err h => assembly_error h) sink t⟩

/-- Where it is told to be wide, the sample language reads the two bytes of `jump` one at a time, and these are the
    latest bytes of the call. -/
theorem requests_contiguous_jump :
    let engine : Engine FlatImage := ⟨⟨0, [0x20, 0x05]⟩, Sample.language, .ofFields [⟨"wide", 1, 1⟩], [], 0⟩
    Language.ofElement Sample.root = .ok engine.language ∧
      (engine.observed.decode 0 Sink.ops .empty).engine.source.requests.map (fun q => (q.address.offset, q.size)) =
        [(0, 1), (1, 1)] ∧
      (engine.decode 0 Sink.ops .empty).result = .ok 2 ∧
      (engine.decode 0 Sink.ops .empty).engine.lastBytes = [0x20, 0x05] ∧
      (∀ (τ : Type) (sink : Sink MicroOp τ) (t : τ),
        ContiguousRequests engine.language 0 (engine.decode 0 sink t).result (engine.decode 0 sink t).engine.lastBytes
          (engine.observed.decode 0 sink t).engine.source.requests) ∧
      (∀ (τ : Type) (sink : Sink AssemblyLine τ) (t : τ),
        ContiguousRequests engine.language 0 (engine.disassemble 0 sink t).result
          (engine.disassemble 0 sink t).engine.lastBytes
          (engine.observed.disassemble 0 sink t).engine.source.requests) :=
  ⟨Sample.accepted, by rfl, by rfl, by rfl, requests_contiguous _ 0 Sample.accepted⟩

end Engine

end Lifter
