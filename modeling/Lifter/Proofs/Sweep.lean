/-
  Lifter.Proofs.Sweep — every entry of a listing is made by calls of its own.

  A sweep uses one engine and two recorders for all its entries, and a line whose
  instruction cannot be decoded stays behind in its recorder. The plain loop (`Lists`)
  makes every call on the engine as it was in the beginning, with a recorder to which
  nothing was handed before. Over a source that only reads, both give the same listing
  (`sweep_lists`): between entries only the lines left behind differ (`Tidy`), and the
  line taken for an entry is always the latest one, which is its own.
-/

import Lifter.Listing.Sweep
import Lifter.Proofs.Agreement
import Lifter.Proofs.Requests

namespace Lifter

open Specification

/-! ## Calls with a recorder -/

theorem Sink.deliver_recording {α β : Type} (copy : α → β) (as : List α) :
    ∀ r : Recorder β, (Sink.recording copy).deliver as r = (none, ⟨r.records ++ as.map copy⟩) := by
  induction as with
  | nil =>
    intro r
    simp only [deliver, List.map_nil, List.append_nil]
  | cons a as ih =>
    intro r
    show (Sink.recording copy).deliver as (r.push (copy a)) = _
    rw [ih, Recorder.push, List.append_assoc]
    rfl

namespace Engine

variable {σ τ α β : Type}

/-- Engines that differ at most in what their latest calls read. -/
structure Same (e e' : Engine σ) : Prop where
  source : e.source = e'.source
  language : e.language = e'.language
  context : e.context = e'.context

variable [ByteSource σ] {e e' : Engine σ} {offset : UInt64}

theorem run_of_same (h : e'.Same e) (explain : Instruction → Except DecodeError (List α)) (sink : Sink α τ) (t : τ) :
    e'.run offset explain sink t = e.run offset explain sink t := by
  obtain ⟨source, language, context, fetched, used⟩ := e
  obtain ⟨source', language', context', fetched', used'⟩ := e'
  obtain ⟨hsource, hlanguage, hcontext⟩ := h
  cases hsource
  cases hlanguage
  cases hcontext
  rfl

theorem decode_of_same (h : e'.Same e) (sink : Sink MicroOp τ) (t : τ) :
    e'.decode offset sink t = e.decode offset sink t := by
  rw [decode, decode, h.language, run_of_same h]

theorem disassemble_of_same (h : e'.Same e) (sink : Sink AssemblyLine τ) (t : τ) :
    e'.disassemble offset sink t = e.disassemble offset sink t := by
  rw [disassemble, disassemble, h.language, run_of_same h]

/-- A call over a source that only reads leaves the same engine. -/
theorem same_run [ReadOnly σ] (e : Engine σ) (explain : Instruction → Except DecodeError (List α)) (sink : Sink α τ)
    (t : τ) : (e.run offset explain sink t).engine.Same e := by
  rw [run_engine]
  exact ⟨e.fetch_source offset, rfl, rfl⟩

/-- What a recorder held before a call is not looked at. -/
theorem run_recording (e : Engine σ) (offset : UInt64) (explain : Instruction → Except DecodeError (List α))
    (copy : α → β) (r : Recorder β) :
    e.run offset explain (Sink.recording copy) r =
      ⟨(e.run offset explain (Sink.recording copy) .empty).result,
        (e.run offset explain (Sink.recording copy) .empty).engine,
        ⟨r.records ++ (e.run offset explain (Sink.recording copy) .empty).sink.records⟩⟩ := by
  simp only [run, Sink.deliver_recording]
  rcases (e.fetch offset).result with err | i
  · simp only [Recorder.empty, List.append_nil]
  · rcases hrecords : explain i with err | records
    · simp only [hrecords, Recorder.empty, List.append_nil]
    · simp only [hrecords, Recorder.empty, List.nil_append]

/-- With an empty recorder, a call records all that it hands over, which is nothing if it fails. -/
theorem run_recording_cases (e : Engine σ) (offset : UInt64) (explain : Instruction → Except DecodeError (List α))
    (copy : α → β) :
    (∃ err, (e.run offset explain (Sink.recording copy) .empty).result = .error err ∧
        (e.run offset explain (Sink.recording copy) .empty).sink.records = []) ∨
      ∃ i records, (e.fetch offset).result = .ok i ∧ explain i = .ok records ∧
        (e.run offset explain (Sink.recording copy) .empty).result = .ok i.length ∧
        (e.run offset explain (Sink.recording copy) .empty).sink.records = records.map copy ∧
        (e.run offset explain (Sink.recording copy) .empty).engine.lastBytes = (e.fetch offset).bytes.take i.length := by
  simp only [run, Sink.deliver_recording]
  rcases (e.fetch offset).result with err | i
  · exact .inl ⟨err, rfl, rfl⟩
  · rcases hrecords : explain i with err | records
    · simp only [hrecords]
      exact .inl ⟨err, rfl, rfl⟩
    · simp only [hrecords]
      exact .inr ⟨i, records, rfl, hrecords, rfl, rfl, rfl⟩

end Engine

/-! ## The plain loop -/

section Listing

variable {σ : Type} [ByteSource σ]

/-- The entry that one call, or two, make of the instruction at its address. -/
structure IsEntry (e : Engine σ) (withOps : Bool) (insn : DecodedInstruction) : Prop where
  length : (e.disassemble insn.address Sink.lines .empty).result = .ok insn.length
  line : (e.disassemble insn.address Sink.lines .empty).sink.records = [insn.line]
  bytes : (e.disassemble insn.address Sink.lines .empty).engine.lastBytes = insn.bytes
  ops : if withOps then
      (∃ n, (e.decode insn.address Sink.ops .empty).result = .ok n) ∧
        (e.decode insn.address Sink.ops .empty).sink.records = insn.ops
    else insn.ops = []

/-- The instruction at `a` cannot be disassembled, or only that. -/
def FailsAt (e : Engine σ) (withOps : Bool) (a : UInt64) (err : DecodeError) : Prop :=
  (e.disassemble a Sink.lines .empty).result = .error err ∨
    (∃ n, (e.disassemble a Sink.lines .empty).result = .ok n) ∧ withOps = true ∧
      (e.decode a Sink.ops .empty).result = .error err

/-- Nothing follows after this error at `a`: the source failed there, or it is outside the space. -/
def EndsListing (a : UInt64) (err : DecodeError) : Prop :=
  (∃ n cause, err = .byteSource a n cause) ∨ ∃ a' space, err = .outOfSpace a' space

/-- The listing of at most `count` entries from `a` on. -/
inductive Lists (e : Engine σ) (withOps : Bool) : (count : Nat) → UInt64 → List ListingEntry → Prop
  | full (a : UInt64) : Lists e withOps 0 a []
  | decoded {count : Nat} {insn : DecodedInstruction} {rest : List ListingEntry} :
      IsEntry e withOps insn → Lists e withOps count (insn.address + UInt64.ofNat insn.length) rest →
      Lists e withOps (count + 1) insn.address (.decoded insn :: rest)
  | ended {count : Nat} {a : UInt64} {err : DecodeError} :
      FailsAt e withOps a err → EndsListing a err → Lists e withOps (count + 1) a []
  | failed {count : Nat} {a : UInt64} {err : DecodeError} {rest : List ListingEntry} :
      FailsAt e withOps a err → ¬ EndsListing a err →
      Lists e withOps count (a + UInt64.ofNat e.language.alignment) rest →
      Lists e withOps (count + 1) a (.failed a err.message :: rest)

variable {e : Engine σ} {withOps : Bool}

theorem IsEntry.unique {insn insn' : DecodedInstruction} (h : IsEntry e withOps insn) (h' : IsEntry e withOps insn')
    (ha : insn.address = insn'.address) : insn = insn' := by
  obtain ⟨address, length, bytes, line, ops⟩ := insn
  obtain ⟨address', length', bytes', line', ops'⟩ := insn'
  cases ha
  have hlength := h.length.symm.trans h'.length
  have hline := h.line.symm.trans h'.line
  have hbytes := h.bytes.symm.trans h'.bytes
  have hops : ops = ops' := by
    have h₁ := h.ops
    have h₂ := h'.ops
    cases withOps with
    | true => exact h₁.2.symm.trans h₂.2
    | false => exact h₁.trans h₂.symm
  cases hlength
  cases hline
  cases hbytes
  cases hops
  rfl

theorem FailsAt.unique {a : UInt64} {err err' : DecodeError} (h : FailsAt e withOps a err)
    (h' : FailsAt e withOps a err') : err = err' := by
  rcases h with h | ⟨⟨n, h⟩, -, hops⟩
  · rcases h' with h' | ⟨⟨m, h'⟩, -, -⟩
    · cases h.symm.trans h'; rfl
    · cases h.symm.trans h'
  · rcases h' with h' | ⟨-, -, hops'⟩
    · cases h.symm.trans h'
    · cases hops.symm.trans hops'; rfl

theorem IsEntry.not_failsAt {insn : DecodedInstruction} (h : IsEntry e withOps insn) {err : DecodeError} :
    ¬ FailsAt e withOps insn.address err := by
  rintro (hfail | ⟨-, hwith, hfail⟩)
  · cases h.length.symm.trans hfail
  · have hops := h.ops
    rw [if_pos hwith] at hops
    obtain ⟨⟨n, hn⟩, -⟩ := hops
    cases hn.symm.trans hfail

/-- There is one listing only. -/
theorem Lists.unique {count : Nat} {a : UInt64} {entries : List ListingEntry} (h : Lists e withOps count a entries) :
    ∀ {entries' : List ListingEntry}, Lists e withOps count a entries' → entries = entries' := by
  induction h with
  | full a => intro entries' h'; cases h'; rfl
  | @decoded count insn rest hentry _ ih =>
    intro entries' h'
    generalize haddr : insn.address = a at h'
    cases h' with
    | @decoded _ insn' rest' hentry' hrest' =>
      cases hentry.unique hentry' haddr
      rw [ih hrest']
    | ended hfail => exact absurd (haddr ▸ hfail) hentry.not_failsAt
    | failed hfail => exact absurd (haddr ▸ hfail) hentry.not_failsAt
  | ended hfail hends =>
    intro entries' h'
    cases h' with
    | decoded hentry => exact absurd hfail hentry.not_failsAt
    | ended => rfl
    | failed hfail' hno => exact absurd (hfail.unique hfail' ▸ hends) hno
  | failed hfail hno _ ih =>
    intro entries' h'
    cases h' with
    | decoded hentry => exact absurd hfail hentry.not_failsAt
    | ended hfail' hends => exact absurd (hfail'.unique hfail ▸ hends) hno
    | failed hfail' _ hrest' => rw [hfail.unique hfail', ih hrest']

theorem Lists.isEntry {count : Nat} {a : UInt64} {entries : List ListingEntry} (h : Lists e withOps count a entries)
    {insn : DecodedInstruction} (hmem : .decoded insn ∈ entries) : IsEntry e withOps insn := by
  induction h with
  | full | ended => cases hmem
  | decoded hentry _ ih =>
    rcases List.mem_cons.mp hmem with heq | hmem
    · cases heq
      exact hentry
    · exact ih hmem
  | failed _ _ _ ih =>
    rcases List.mem_cons.mp hmem with heq | hmem
    · cases heq
    · exact ih hmem

/-- The decoded instruction holds records of its own address only, and as many bytes as it is long. -/
structure HasOwnRecords (insn : DecodedInstruction) : Prop where
  line : insn.line.address = insn.address
  ops : ∀ op ∈ insn.ops, op.address = insn.address
  bytes : insn.bytes.length = insn.length

namespace Engine

theorem disassemble_cases (e : Engine σ) (a : UInt64) :
    (∃ err, (e.disassemble a Sink.lines .empty).result = .error err ∧
        (e.disassemble a Sink.lines .empty).sink.records = []) ∨
      ∃ i text, (e.fetch a).result = .ok i ∧
        (e.disassemble a Sink.lines .empty).result = .ok i.length ∧
        (e.disassemble a Sink.lines .empty).sink.records =
          [AssemblyLine.record ⟨e.language.codeAddress i.start, i.encoding.mnemonic, text⟩] ∧
        (e.disassemble a Sink.lines .empty).engine.lastBytes = (e.fetch a).bytes.take i.length := by
  rcases e.run_recording_cases a (assembly e.language) AssemblyLine.record with
    hfail | ⟨i, records, hfound, hrecords, hresult, hsink, hbytes⟩
  · exact .inl hfail
  · obtain ⟨text, -, rfl⟩ := map_eq_ok.mp hrecords
    exact .inr ⟨i, text, hfound, hresult, hsink, hbytes⟩

theorem decode_cases (e : Engine σ) (a : UInt64) :
    (∃ err, (e.decode a Sink.ops .empty).result = .error err ∧ (e.decode a Sink.ops .empty).sink.records = []) ∨
      ∃ i, (e.fetch a).result = .ok i ∧ (e.decode a Sink.ops .empty).result = .ok i.length ∧
        (∀ op ∈ (e.decode a Sink.ops .empty).sink.records, op.address = (e.language.codeAddress i.start).offset) ∧
        (e.decode a Sink.ops .empty).engine.lastBytes = (e.fetch a).bytes.take i.length := by
  rcases e.run_recording_cases a (microOps e.language) MicroOp.record with
    hfail | ⟨i, records, hfound, hrecords, hresult, hsink, hbytes⟩
  · exact .inl hfail
  · obtain ⟨ops, -, rfl⟩ := map_eq_ok.mp hrecords
    refine .inr ⟨i, hfound, hresult, fun op hop => ?_, hbytes⟩
    rw [decode, Sink.ops, hsink, List.map_map] at hop
    obtain ⟨resolved, -, rfl⟩ := List.mem_map.mp hop
    rfl

end Engine

theorem IsEntry.hasOwnRecords {insn : DecodedInstruction} (h : IsEntry e withOps insn)
    (hsorted : e.language.encodings.Pairwise fun f g => f.length ≤ g.length) : HasOwnRecords insn := by
  rcases e.disassemble_cases insn.address with ⟨err, herr, -⟩ | ⟨i, text, hfound, hlength, hline, hbytes⟩
  · cases h.length.symm.trans herr
  · obtain ⟨hin, hstart, -⟩ := e.fetch_ok hfound
    have haddress : (e.language.codeAddress i.start).offset = insn.address := by
      rw [hstart]
      exact Engine.offset_codeAddress hin
    refine ⟨?_, fun op hop => ?_, ?_⟩
    · have hown : AssemblyLine.record ⟨e.language.codeAddress i.start, i.encoding.mnemonic, text⟩ = insn.line := by
        simpa using hline.symm.trans h.line
      rw [← hown]
      exact haddress
    · have hops := h.ops
      split at hops
      · obtain ⟨⟨n, hn⟩, hrecords⟩ := hops
        rcases e.decode_cases insn.address with ⟨err, herr, -⟩ | ⟨j, hfound', -, hall, -⟩
        · cases hn.symm.trans herr
        · cases hfound.symm.trans hfound'
          rw [← hrecords] at hop
          rw [hall op hop, haddress]
      · rw [hops] at hop
        cases hop
    · have hlen := (Engine.requests_of_ok hsorted hfound).2.2
      have hn : i.length = insn.length := by simpa using hlength.symm.trans h.length
      rw [← h.bytes, hbytes, List.take_of_length_le (Nat.le_of_eq hlen), hlen, hn]

/-! ## The sweep -/

namespace Sweep

/-- How a sweep is between two entries: its engine is as it was, and no operations are left behind. Of the
    lines left behind nothing is said. -/
structure Tidy (e : Engine σ) (s : Sweep σ) : Prop where
  same : s.engine.Same e
  ops : s.ops.records = []

/-- The states of a sweep and the addresses at which it is in them. -/
inductive Reaches (withOps : Bool) (first : Sweep σ) (start : UInt64) : Sweep σ → UInt64 → Prop
  | start : Reaches withOps first start first start
  | failed {s next : Sweep σ} {a : UInt64} {err : DecodeError} :
      Reaches withOps first start s a → s.attempt withOps a = (.error err, next) → ¬ EndsListing a err →
      Reaches withOps first start next (a + UInt64.ofNat next.engine.language.alignment)
  | decoded {s next : Sweep σ} {a : UInt64} {n : Nat} :
      Reaches withOps first start s a → s.attempt withOps a = (.ok n, next) →
      Reaches withOps first start ⟨next.engine, .empty, .empty⟩ (a + UInt64.ofNat n)

theorem endsAt_iff {a : UInt64} {err : DecodeError} : endsAt a err = true ↔ EndsListing a err := by
  cases err with
  | byteSource a' n cause => simp [endsAt, EndsListing]
  | outOfSpace a' space => simp [endsAt, EndsListing]
  | noMatch | misaligned | invalidOperand | callbackFault => simp [endsAt, EndsListing]

variable [ReadOnly σ] {s : Sweep σ}

/-- In such a state the calls are those of the plain loop; only the lines left behind are still there. -/
theorem attempt_eq (h : s.Tidy e) (withOps : Bool) (a : UInt64) :
    s.attempt withOps a =
      let shown := e.disassemble a Sink.lines .empty
      let lifted := e.decode a Sink.ops .empty
      let lines : Recorder LineRecord := ⟨s.lines.records ++ shown.sink.records⟩
      match shown.result with
      | .error err => (.error err, ⟨shown.engine, lines, s.ops⟩)
      | .ok length =>
        if withOps then (lifted.result.map fun _ => length, ⟨lifted.engine, lines, lifted.sink⟩)
        else (.ok length, ⟨shown.engine, lines, s.ops⟩) := by
  have hshown : s.engine.disassemble a Sink.lines s.lines =
      ⟨(e.disassemble a Sink.lines .empty).result, (e.disassemble a Sink.lines .empty).engine,
        ⟨s.lines.records ++ (e.disassemble a Sink.lines .empty).sink.records⟩⟩ := by
    rw [Engine.disassemble_of_same h.same]
    exact e.run_recording a (Engine.assembly e.language) AssemblyLine.record s.lines
  have hlifted : (e.disassemble a Sink.lines .empty).engine.decode a Sink.ops .empty = e.decode a Sink.ops .empty :=
    Engine.decode_of_same (e.same_run _ _ _) _ _
  unfold attempt
  rw [hshown]
  cases hresult : (e.disassemble a Sink.lines .empty).result with
  | error err => simp only [hresult]
  | ok length => simp only [hresult, hlifted]

/-- An attempt fails as the plain loop does, or has all that its entry needs. -/
theorem attempt_cases (h : s.Tidy e) (withOps : Bool) (a : UInt64) :
    (∃ err next, s.attempt withOps a = (.error err, next) ∧ FailsAt e withOps a err ∧ next.Tidy e) ∨
      ∃ insn next, insn.address = a ∧ s.attempt withOps a = (.ok insn.length, next) ∧ IsEntry e withOps insn ∧
        next.engine.Same e ∧ next.lines.last? = some insn.line ∧ next.engine.lastBytes = insn.bytes ∧
        next.ops.records = insn.ops := by
  rw [attempt_eq h]
  have hsame : (e.disassemble a Sink.lines .empty).engine.Same e := e.same_run _ _ _
  have hsame' : (e.decode a Sink.ops .empty).engine.Same e := e.same_run _ _ _
  rcases e.disassemble_cases a with ⟨err, herr, -⟩ | ⟨i, text, hfound, hlength, hline, hbytes⟩
  · simp only [herr]
    exact .inl ⟨err, _, rfl, .inl herr, hsame, h.ops⟩
  · -- the line left behind last is this call's own
    have hlast : Recorder.last? ⟨s.lines.records ++ (e.disassemble a Sink.lines .empty).sink.records⟩ =
        some (AssemblyLine.record ⟨e.language.codeAddress i.start, i.encoding.mnemonic, text⟩) := by
      rw [hline]
      exact List.getLast?_concat
    simp only [hlength]
    cases withOps with
    | false =>
      exact .inr ⟨⟨a, i.length, _, _, []⟩, _, rfl, rfl, ⟨hlength, hline, rfl, rfl⟩, hsame, hlast, rfl, h.ops⟩
    | true =>
      rcases e.decode_cases a with ⟨err, herr, hnone⟩ | ⟨j, hfound', hlength', -, hbytes'⟩
      · simp only [herr, if_true]
        exact .inl ⟨err, _, rfl, .inr ⟨⟨_, hlength⟩, rfl, herr⟩, hsame', hnone⟩
      · cases hfound.symm.trans hfound'
        simp only [hlength', if_true]
        exact .inr ⟨⟨a, i.length, _, _, _⟩, _, rfl, rfl, ⟨hlength, hline, rfl, ⟨⟨_, hlength'⟩, rfl⟩⟩, hsame', hlast,
          hbytes'.trans hbytes.symm, rfl⟩

/-- From such a state on, the entries are those of the plain loop. -/
theorem entries_lists (withOps : Bool) (count : Nat) :
    ∀ (s : Sweep σ) (a : UInt64), s.Tidy e → Lists e withOps count a (entries withOps count s a).1 := by
  induction count with
  | zero => intro s a _; exact .full a
  | succ count ih =>
    intro s a h
    rcases attempt_cases h withOps a with
      ⟨err, next, hattempt, hfail, htidy⟩ | ⟨insn, next, rfl, hattempt, hentry, hsame, hlast, hbytes, hops⟩
    · simp only [entries, hattempt]
      split
      · exact .ended hfail (endsAt_iff.mp ‹_›)
      · rename_i hno
        rw [htidy.same.language]
        exact .failed hfail (fun hends => hno (endsAt_iff.mpr hends)) (ih next _ htidy)
    · simp only [entries, hattempt, hlast, hbytes, hops]
      exact .decoded hentry (ih ⟨next.engine, .empty, .empty⟩ _ ⟨hsame, rfl⟩)

theorem Reaches.tidy {first : Sweep σ} {start a : UInt64} (h : Reaches withOps first start s a)
    (hfirst : first.Tidy e) : s.Tidy e := by
  induction h with
  | start => exact hfirst
  | @failed s next a err _ hattempt hno ih =>
    rcases attempt_cases ih withOps a with ⟨err', next', hattempt', -, htidy⟩ | ⟨insn, next', -, hattempt', -⟩
    · cases hattempt.symm.trans hattempt'
      exact htidy
    · cases hattempt.symm.trans hattempt'
  | @decoded s next a n _ hattempt ih =>
    rcases attempt_cases ih withOps a with ⟨err', next', hattempt', -⟩ | ⟨insn, next', -, hattempt', -, hsame, -⟩
    · cases hattempt.symm.trans hattempt'
    · cases hattempt.symm.trans hattempt'
      exact ⟨hsame, rfl⟩

end Sweep

/-- The entries of a sweep are those of the plain loop. -/
theorem lists_sweep [ReadOnly σ] (e : Engine σ) (start : UInt64) (count : Nat) (withOps : Bool) :
    Lists e withOps count start (e.sweep start count withOps).1.entries :=
  Sweep.entries_lists withOps count _ _ ⟨⟨rfl, rfl, rfl⟩, rfl⟩

/-- A sweep lists what the plain loop lists; every entry has the records of its own address only; and after
    every success there is a line, made at that address. -/
theorem sweep_lists [ReadOnly σ] {root : Element} (engine : Engine σ) (start : UInt64) (count : Nat)
    (withOps : Bool) (accepted : Language.ofElement root = .ok engine.language) :
    (∀ entries, Lists engine withOps count start entries ↔ entries = (engine.sweep start count withOps).1.entries) ∧
    (∀ insn, .decoded insn ∈ (engine.sweep start count withOps).1.entries → HasOwnRecords insn) ∧
    ∀ s a, Sweep.Reaches withOps (.start engine) start s a → ∀ n next, s.attempt withOps a = (.ok n, next) →
      ∃ line, next.lines.last? = some line ∧ line.address = a := by
  obtain ⟨_, _, _, _, hordered⟩ := ofElement_encodings accepted
  have hstart : (Sweep.start engine).Tidy engine := ⟨⟨rfl, rfl, rfl⟩, rfl⟩
  have hlists : Lists engine withOps count start (engine.sweep start count withOps).1.entries :=
    Sweep.entries_lists withOps count _ _ hstart
  refine ⟨fun entries => ⟨fun h => h.unique hlists, fun h => h ▸ hlists⟩, ?_, fun s a h n next hattempt => ?_⟩
  · exact fun insn hmem => (hlists.isEntry hmem).hasOwnRecords hordered.ascending
  · rcases Sweep.attempt_cases (h.tidy hstart) withOps a with
      ⟨err, next', hattempt', -⟩ | ⟨insn, next', rfl, hattempt', hentry, -, hlast, -⟩
    · cases hattempt.symm.trans hattempt'
    · cases hattempt.symm.trans hattempt'
      exact ⟨insn.line, hlast, (hentry.hasOwnRecords hordered.ascending).line⟩

end Listing

namespace Sample

/-- An instruction that sets a register but prints none. -/
def set : Encoding :=
  { inc with mnemonic := "set", operands := [], ops := [⟨.copy, some (.field field), [.constant 1 1]⟩] }

def setElement : Element :=
  ⟨"instruction", [("mnemonic", "set"), ("length", "1"), ("mask", "0xfc"), ("match", "0x10")], "",
    [leaf "field" [("name", "r"), ("lsb", "0"), ("width", "2"), ("kind", "register"), ("table", "ab")],
      leaf "op" [("code", "COPY"), ("out", "r"), ("in", "#1:1")]]⟩

theorem set_accepted : Language.ofElement (rootWith setElement) = .ok (languageWith set) := by rfl

end Sample

/-- The first `set` is printed but cannot be decoded; the entry of the second has the second line. -/
theorem sweep_lists_set :
    let engine := Engine.ofLanguage (⟨0, [0x12, 0x11]⟩ : FlatImage) (Sample.languageWith Sample.set)
    Language.ofElement (Sample.rootWith Sample.setElement) = .ok engine.language ∧
    (engine.sweep 0 3 true).1.entries.map (·.isDecoded) = [false, true] ∧
    (∀ entries, Lists engine true 3 0 entries ↔ entries = (engine.sweep 0 3 true).1.entries) ∧
    (∀ insn, .decoded insn ∈ (engine.sweep 0 3 true).1.entries → HasOwnRecords insn) ∧
    ∀ s a, Sweep.Reaches true (.start engine) 0 s a → ∀ n next, s.attempt true a = (.ok n, next) →
      ∃ line, next.lines.last? = some line ∧ line.address = a :=
  ⟨Sample.set_accepted, by rfl, sweep_lists _ 0 3 true Sample.set_accepted⟩

end Lifter
