/-
  Lifter.Proofs.Leftovers — an engine that uses its storage again.

  An engine has storage for the micro-operations of an instruction, for eight bytes and
  for the number of those that count, and no call starts with all of it cleared: a
  search writes the bytes it gets over those of the call before, a refused request
  blanks what it asked for, one on which the source breaks down leaves whatever was
  written, and so on. `ReusedEngine` is the engine with this storage. A call on it
  agrees with one on the engine without (`run_like`), for it looks at no byte and no
  operation that it has not itself written. So what earlier calls left, however they
  ended, makes no difference (`calls_forget`).
-/

import Lifter.Proofs.Sweep

namespace Lifter

open Specification

/-! ## The buffer -/

abbrev Buffer := Bytes maxInstructionSize

namespace Buffer

/-- Writes bytes from position `i` on, as many as there is room for. -/
def put (b : Buffer) (i : Nat) (bytes : List UInt8) : Buffer :=
  ⟨(b.val.take i ++ bytes ++ b.val.drop (i + bytes.length)).take maxInstructionSize, by
    have hb := b.property
    simp only [List.length_take, List.length_append, List.length_drop]
    omega⟩

/-- The buffer starts with these bytes. -/
def Holding (b : Buffer) (bytes : List UInt8) : Prop := b.val.take bytes.length = bytes

theorem holding_nil (b : Buffer) : b.Holding [] := rfl

variable {b : Buffer} {bytes : List UInt8}

theorem Holding.take (h : b.Holding bytes) {n : Nat} (hn : n ≤ bytes.length) : b.val.take n = bytes.take n := by
  rw [← h, List.take_take, Nat.min_eq_left hn]

/-- Bytes written behind those that it starts with. -/
theorem Holding.put (h : b.Holding bytes) {more : List UInt8}
    (hroom : (bytes ++ more).length ≤ maxInstructionSize) : (b.put bytes.length more).Holding (bytes ++ more) := by
  unfold Holding Buffer.put
  rw [List.take_take, Nat.min_eq_left hroom, h]
  exact List.take_left

end Buffer

/-! ## The engine -/

structure ReusedEngine (σ : Type) where
  source : σ
  language : Language
  context : Context
  /-- The micro-operations that were resolved last, up to one that could not be. -/
  ops : List ResolvedOp
  buffer : Buffer
  /-- How many bytes of the buffer are the instruction of the latest call, none if it failed. -/
  used : Nat

/-- What a source makes of the buffer before it breaks down on a request. -/
abbrev Spoiling (σ : Type) := σ → Address → Buffer → Buffer

/-- A result, and the buffer and the source after it. -/
structure Filled (σ α : Type) where
  result : Except DecodeError α
  buffer : Buffer
  source : σ

/-- What a call leaves. -/
structure ReusedCall (σ τ : Type) where
  result : Except DecodeError Nat
  engine : ReusedEngine σ
  sink : τ

namespace Instruction

/-- Resolves operations one by one, behind those in `out`. -/
def resolveInto (i : Instruction) (l : Language) :
    List OpTemplate → List ResolvedOp → Except DecodeError Unit × List ResolvedOp
  | [], out => (.ok (), out)
  | t :: ts, out =>
    match i.resolve l t with
    | .error err => (.error err, out)
    | .ok op => i.resolveInto l ts (out ++ [op])

/-- A resolved operation, as it is handed over. -/
def microOp (i : Instruction) (l : Language) (op : ResolvedOp) : MicroOp :=
  ⟨l.codeAddress i.start, op.opcode, op.output.map (·.varnode), op.inputs.map (·.varnode)⟩

end Instruction

namespace ReusedEngine

variable {σ τ α : Type}

/-- The engine without the storage. -/
def plain (e : ReusedEngine σ) : Engine σ := ⟨e.source, e.language, e.context, e.buffer.val.take e.used, e.used⟩

theorem lastBytes_plain (e : ReusedEngine σ) : e.plain.lastBytes = e.buffer.val.take e.used := by
  rw [Engine.lastBytes, plain, List.take_take, Nat.min_self]

def observed (e : ReusedEngine σ) : ReusedEngine (Observed σ) := { e with source := .ofSource e.source }

section Calls

variable [ByteSource σ] (spoil : Spoiling σ)

/-- The buffer after a request that failed. -/
def afterFailure (source : σ) (a : Address) (got n : Nat) (buffer : Buffer) : SourceFailure → Buffer
  | .refused _ => buffer.put got (List.replicate (n - got) 0)
  | .broke _ => spoil source a buffer

/-- Reads on until there are `n` bytes, of which `got` are there. -/
def extend (start : Address) (got n : Nat) (buffer : Buffer) (source : σ) : Filled σ Unit :=
  if n ≤ got then ⟨.ok (), buffer, source⟩
  else
    let a := start.advance (UInt64.ofNat got)
    match ByteSource.fill source a (n - got) with
    | (.ok more, next) => ⟨.ok (), buffer.put got more.val, next⟩
    | (.error failure, next) =>
      ⟨.error (failure.error start.offset a (n - got)), afterFailure spoil source a got n buffer failure, next⟩

/-- The first of the encodings that fits. -/
def select (bigEndian : Bool) (start : Address) : List Encoding → Nat → Buffer → σ → Filled σ Instruction
  | [], _, buffer, source => ⟨.error (.noMatch start.offset), buffer, source⟩
  | e :: es, got, buffer, source =>
    match extend spoil start got e.length buffer source with
    | ⟨.error err, buffer, source⟩ => ⟨.error err, buffer, source⟩
    | ⟨.ok (), buffer, source⟩ =>
      let w := word bigEndian (buffer.val.take e.length)
      if e.fits w then ⟨.ok ⟨e, w, start.offset⟩, buffer, source⟩
      else select bigEndian start es (max got e.length) buffer source

/-- The instruction at `offset`. -/
def fetch (e : ReusedEngine σ) (offset : UInt64) : Filled σ Instruction :=
  let l := e.language
  if l.codeSpace.highest < offset then ⟨.error (.outOfSpace offset l.codeSpace.name), e.buffer, e.source⟩
  else if offset.toNat % l.alignment ≠ 0 then ⟨.error (.misaligned offset l.alignment), e.buffer, e.source⟩
  else
    let a := l.codeAddress offset
    select spoil l.bigEndian a (l.encodings.filter (·.isAdmitted e.context a)) 0 e.buffer e.source

/-- Fetches the instruction at `offset` and hands over what `explain` makes of it, which may use the
    storage for operations. -/
def run (e : ReusedEngine σ) (offset : UInt64)
    (explain : Instruction → List ResolvedOp → Except DecodeError (List α) × List ResolvedOp) (sink : Sink α τ)
    (t : τ) : ReusedCall σ τ :=
  let found := fetch spoil e offset
  let engine : ReusedEngine σ := { e with source := found.source, buffer := found.buffer, used := 0 }
  match found.result with
  | .error err => ⟨.error err, engine, t⟩
  | .ok i =>
    match explain i e.ops with
    | (.error err, ops) => ⟨.error err, { engine with ops := ops }, t⟩
    | (.ok records, ops) =>
      match sink.deliver records t with
      | (some fault, t) => ⟨.error (.callbackFault offset fault.message), { engine with ops := ops }, t⟩
      | (none, t) => ⟨.ok i.length, { engine with ops := ops, used := i.length }, t⟩

/-- The micro-operations of an instruction, resolved into the storage once it is cleared. -/
def microOps (l : Language) (i : Instruction) (_ : List ResolvedOp) :
    Except DecodeError (List MicroOp) × List ResolvedOp :=
  match i.resolveInto l i.encoding.ops [] with
  | (.error err, ops) => (.error err, ops)
  | (.ok (), ops) => (.ok (ops.map (i.microOp l)), ops)

/-- The line of an instruction, for which no operations are resolved. -/
def assembly (l : Language) (i : Instruction) (ops : List ResolvedOp) :
    Except DecodeError (List AssemblyLine) × List ResolvedOp := (Engine.assembly l i, ops)

def decode (e : ReusedEngine σ) (offset : UInt64) (sink : Sink MicroOp τ) (t : τ) : ReusedCall σ τ :=
  run spoil e offset (microOps e.language) sink t

def disassemble (e : ReusedEngine σ) (offset : UInt64) (sink : Sink AssemblyLine τ) (t : τ) : ReusedCall σ τ :=
  run spoil e offset (assembly e.language) sink t

end Calls

end ReusedEngine

/-- The call without the storage. -/
def ReusedCall.plain {σ τ : Type} (call : ReusedCall σ τ) : Call σ τ := ⟨call.result, call.engine.plain, call.sink⟩

/-! ## Operations -/

theorem Instruction.resolveInto_eq (i : Instruction) (l : Language) (ts : List OpTemplate) :
    ∀ out, match ts.mapM (i.resolve l) with
      | .ok ops => i.resolveInto l ts out = (.ok (), out ++ ops)
      | .error err => ∃ rest, i.resolveInto l ts out = (.error err, rest) := by
  induction ts with
  | nil => intro out; simp [resolveInto, pure, Except.pure]
  | cons t ts ih =>
    intro out
    simp only [List.mapM_cons, resolveInto]
    cases i.resolve l t with
    | error err => exact ⟨out, rfl⟩
    | ok op =>
      have hrest := ih (out ++ [op])
      cases hts : ts.mapM (i.resolve l) with
      | error err =>
        rw [hts] at hrest
        exact hrest
      | ok ops =>
        rw [hts] at hrest
        simpa [bind, Except.bind, pure, Except.pure] using hrest

namespace ReusedEngine

theorem microOps_fst (l : Language) (i : Instruction) (ops : List ResolvedOp) :
    (microOps l i ops).1 = Engine.microOps l i := by
  have h := i.resolveInto_eq l i.encoding.ops []
  unfold microOps Engine.microOps Instruction.semantics
  cases hops : i.encoding.ops.mapM (i.resolve l) with
  | error err =>
    rw [hops] at h
    obtain ⟨rest, hrest⟩ := h
    rw [hrest]
    rfl
  | ok ops =>
    rw [hops] at h
    rw [h]
    rfl

/-! ## The search -/

/-- A search with the buffer finds what one without finds, and the buffer starts with its bytes. -/
structure FoundLike {σ : Type} (filled : Filled σ Instruction) (found : Fetch σ Instruction) : Prop where
  result : filled.result = found.result
  source : filled.source = found.source
  bytes : ∀ i, found.result = .ok i → filled.buffer.val.take i.length = found.bytes.take i.length

variable {σ τ α : Type} [ByteSource σ] (spoil : Spoiling σ)

theorem select_of_le {bigEndian : Bool} {start : Address} {e : Encoding} {es : List Encoding} {got : Nat}
    (buffer : Buffer) (source : σ) (h : e.length ≤ got) :
    select spoil bigEndian start (e :: es) got buffer source =
      if e.fits (word bigEndian (buffer.val.take e.length)) = true then
        ⟨.ok ⟨e, word bigEndian (buffer.val.take e.length), start.offset⟩, buffer, source⟩
      else select spoil bigEndian start es got buffer source := by
  simp only [select, extend, h, if_true, Nat.max_eq_left h]

theorem select_of_lt {bigEndian : Bool} {start : Address} {e : Encoding} {es : List Encoding} {got : Nat}
    (buffer : Buffer) (source : σ) (h : got < e.length) :
    select spoil bigEndian start (e :: es) got buffer source =
      match ByteSource.fill source (start.advance (UInt64.ofNat got)) (e.length - got) with
      | (.ok more, next) => select spoil bigEndian start (e :: es) e.length (buffer.put got more.val) next
      | (.error failure, next) =>
        ⟨.error (failure.error start.offset (start.advance (UInt64.ofNat got)) (e.length - got)),
          afterFailure spoil source (start.advance (UInt64.ofNat got)) got e.length buffer failure, next⟩ := by
  have hn : ¬ e.length ≤ got := Nat.not_le.mpr h
  rw [select, extend, if_neg hn]
  rcases hfill : ByteSource.fill source (start.advance (UInt64.ofNat got)) (e.length - got) with ⟨_ | more, next⟩
  · simp only [hfill]
  · simp only [hfill]
    rw [select_of_le spoil _ _ (Nat.le_refl e.length), Nat.max_eq_right (Nat.le_of_lt h)]

/-- The bytes read so far are those that the buffer starts with, so what an encoding is compared with has
    been read in this call. -/
theorem select_like (bigEndian : Bool) (start : Address) (es : List Encoding) :
    ∀ (bytes : List UInt8) (source : σ), (∀ e ∈ es, e.length ≤ maxInstructionSize) → ∀ buffer : Buffer,
      buffer.Holding bytes → FoundLike (select spoil bigEndian start es bytes.length buffer source)
        (Lifter.select bigEndian start es bytes source) := by
  apply select_induction
    (P := fun es bytes source r => (∀ e ∈ es, e.length ≤ maxInstructionSize) → ∀ buffer : Buffer,
      buffer.Holding bytes → FoundLike (select spoil bigEndian start es bytes.length buffer source) r)
  case exhausted =>
    intro bytes source _ buffer _
    exact ⟨rfl, rfl, fun i hi => by cases hi⟩
  case found =>
    intro e es bytes source h hfit _ buffer hholding
    have hword : e.fits (word bigEndian (buffer.val.take e.length)) = true := by
      rw [hholding.take h]
      exact hfit
    rw [select_of_le spoil buffer source h, if_pos hword]
    refine ⟨?_, rfl, fun i hi => ?_⟩
    · rw [hholding.take h]
      rfl
    · cases hi
      exact hholding.take h
  case passed =>
    intro e es bytes source r h hfit hrest hes buffer hholding
    have hword : ¬ e.fits (word bigEndian (buffer.val.take e.length)) = true := by
      rw [hholding.take h]
      exact Bool.eq_false_iff.mp hfit
    rw [select_of_le spoil buffer source h, if_neg hword]
    exact hrest (fun f hf => hes f (List.mem_cons_of_mem _ hf)) buffer hholding
  case supplied =>
    intro e es bytes source more next r h hfill hrest hes buffer hholding
    have hlength : (bytes ++ more.val).length = e.length := by
      rw [List.length_append, more.property]
      omega
    have hroom : (bytes ++ more.val).length ≤ maxInstructionSize := by
      rw [hlength]
      exact hes e List.mem_cons_self
    have hnext := hrest hes _ (hholding.put hroom)
    rw [select_of_lt spoil buffer source h, hfill]
    rw [hlength] at hnext
    exact hnext
  case failed =>
    intro e es bytes source failure next h hfill _ buffer _
    rw [select_of_lt spoil buffer source h, hfill]
    exact ⟨rfl, rfl, fun i hi => by cases hi⟩

variable {e : ReusedEngine σ}

theorem fetch_like (hw : e.language.WellFormed) (offset : UInt64) :
    FoundLike (fetch spoil e offset) (e.plain.fetch offset) := by
  rcases Engine.inPlace_cases e.language offset with h | ⟨h, ha⟩ | h
  · rw [Engine.fetch_outOfSpace e.plain h, fetch, if_pos h]
    exact ⟨rfl, rfl, fun i hi => by cases hi⟩
  · rw [Engine.fetch_misaligned e.plain h ha, fetch, if_neg (UInt64.not_lt.mpr h), if_pos ha]
    exact ⟨rfl, rfl, fun i hi => by cases hi⟩
  · rw [Engine.fetch_inPlace e.plain h, fetch, if_neg (UInt64.not_lt.mpr h.1), if_neg (not_not.mpr h.2)]
    refine select_like spoil _ _ _ [] e.source (fun c hc => ?_) e.buffer e.buffer.holding_nil
    exact (hw.encodings c (List.mem_filter.mp hc).1).length_le

end ReusedEngine

/-! ## Calls -/

/-- Calls with one result, the same latest bytes after them and the same sink, which leave engines that
    do the same. -/
structure Call.Like {σ τ : Type} (call call' : Call σ τ) : Prop where
  result : call.result = call'.result
  lastBytes : call.engine.lastBytes = call'.engine.lastBytes
  sink : call.sink = call'.sink
  engine : call.engine.Same call'.engine

namespace ReusedEngine

variable {σ τ α : Type} [ByteSource σ] (spoil : Spoiling σ) {e : ReusedEngine σ}

/-- What a call leaves of the engine: all but the source and the storage. -/
theorem run_engine (e : ReusedEngine σ) (offset : UInt64)
    (explain : Instruction → List ResolvedOp → Except DecodeError (List α) × List ResolvedOp) (sink : Sink α τ)
    (t : τ) : (run spoil e offset explain sink t).engine =
      { e with source := (fetch spoil e offset).source, buffer := (fetch spoil e offset).buffer,
               ops := (run spoil e offset explain sink t).engine.ops,
               used := (run spoil e offset explain sink t).engine.used } := by
  simp only [run]
  split
  · rfl
  · split
    · rfl
    · split <;> rfl

section

variable {explain : Instruction → List ResolvedOp → Except DecodeError (List α) × List ResolvedOp}
  {explain' : Instruction → Except DecodeError (List α)}

/-- A call ends in one of the ways in which it ends without the storage. -/
theorem run_ends (hexplain : ∀ i ops, (explain i ops).1 = explain' i) (e : ReusedEngine σ) (offset : UInt64)
    (sink : Sink α τ) (t : τ) :
    Ends offset (fetch spoil e offset).result explain' sink t (run spoil e offset explain sink t).result
      (run spoil e offset explain sink t).engine.used (run spoil e offset explain sink t).sink := by
  simp only [run]
  split
  · exact .notFound ‹_›
  · rename_i i hfound
    have hexplained := hexplain i e.ops
    split
    · rename_i err ops hpair
      rw [hpair] at hexplained
      exact .notExplained hfound hexplained.symm
    · rename_i records ops hpair
      rw [hpair] at hexplained
      split
      · rename_i fault t' hd
        have h := @Ends.broken α τ offset _ explain' sink t i records fault hfound hexplained.symm
          (congrArg Prod.fst hd)
        rwa [hd] at h
      · rename_i t' hd
        have h := @Ends.handedOver α τ offset _ explain' sink t i records hfound hexplained.symm
          (congrArg Prod.fst hd)
        rwa [hd] at h

/-- A call agrees with one without the storage, if both make the same of every instruction. -/
theorem run_like (hw : e.language.WellFormed) (offset : UInt64)
    (hexplain : ∀ i ops, (explain i ops).1 = explain' i) (sink : Sink α τ) (t : τ) :
    (run spoil e offset explain sink t).plain.Like (e.plain.run offset explain' sink t) := by
  have hfound := fetch_like spoil hw offset
  have hends := run_ends spoil hexplain e offset sink t
  rw [hfound.result] at hends
  have hplain := e.plain.run_ends offset explain' sink t
  obtain ⟨hresult, hused, hsink⟩ := hends.unique hplain
  have hengine := run_engine spoil e offset explain sink t
  have hengine' := e.plain.run_engine offset explain' sink t
  refine ⟨hresult, ?_, hsink, ?_, ?_, ?_⟩
  · have hbuffer : (run spoil e offset explain sink t).engine.buffer = (fetch spoil e offset).buffer :=
      congrArg ReusedEngine.buffer hengine
    show (run spoil e offset explain sink t).engine.plain.lastBytes = _
    rw [lastBytes_plain, Engine.lastBytes, hused, hbuffer, Engine.run_fetched]
    rcases hr : (e.plain.run offset explain' sink t).result with err | n
    · rw [(hplain.of_error hr).1, List.take_zero, List.take_zero]
    · obtain ⟨i, records, hi, -, -, hlength⟩ := hplain.of_ok hr
      rw [hlength]
      exact hfound.bytes i hi
  · exact (congrArg ReusedEngine.source hengine).trans
      (hfound.source.trans (congrArg Engine.source hengine').symm)
  · exact (congrArg ReusedEngine.language hengine).trans (congrArg Engine.language hengine').symm
  · exact (congrArg ReusedEngine.context hengine).trans (congrArg Engine.context hengine').symm

end

theorem decode_like (hw : e.language.WellFormed) (offset : UInt64) (sink : Sink MicroOp τ) (t : τ) :
    (decode spoil e offset sink t).plain.Like (e.plain.decode offset sink t) :=
  run_like spoil hw offset (microOps_fst e.language) sink t

theorem disassemble_like (hw : e.language.WellFormed) (offset : UInt64) (sink : Sink AssemblyLine τ) (t : τ) :
    (disassemble spoil e offset sink t).plain.Like (e.plain.disassemble offset sink t) := by
  have hexplain : ∀ i ops, (assembly e.language i ops).1 = Engine.assembly e.language i := fun _ _ => rfl
  exact run_like spoil hw offset hexplain sink t

end ReusedEngine

namespace Call.Like

variable {σ τ α : Type} {call call' call'' : Call σ τ}

theorem symm (h : call.Like call') : call'.Like call :=
  ⟨h.result.symm, h.lastBytes.symm, h.sink.symm, h.engine.source.symm, h.engine.language.symm, h.engine.context.symm⟩

theorem trans (h : call.Like call') (h' : call'.Like call'') : call.Like call'' :=
  ⟨h.result.trans h'.result, h.lastBytes.trans h'.lastBytes, h.sink.trans h'.sink,
    h.engine.source.trans h'.engine.source, h.engine.language.trans h'.engine.language,
    h.engine.context.trans h'.engine.context⟩

theorem seen_eq (h : call.Like call') {watched watched' : Call (Observed σ) (τ × List (Receipt α))}
    (hw : watched.Like watched') : call.seen watched = call'.seen watched' := by
  rw [Call.seen, Call.seen, h.result, h.lastBytes, hw.engine.source, hw.sink]

end Call.Like

/-! ## What is seen of them -/

/-- Being watched does not change what a source leaves when it breaks down. -/
def Spoiling.observed {σ : Type} (spoil : Spoiling σ) : Spoiling (Observed σ) := fun o => spoil o.source

namespace Engine

variable {σ τ : Type} {e e' : Engine σ}

theorem Same.observed (h : e'.Same e) : e'.observed.Same e.observed :=
  ⟨congrArg Observed.ofSource h.source, h.language, h.context⟩

variable [ByteSource σ]

theorem seenDecode_of_same (h : e'.Same e) (offset : UInt64) (sink : Sink MicroOp τ) (t : τ) :
    e'.seenDecode offset sink t = e.seenDecode offset sink t := by
  rw [seenDecode, seenDecode, decode_of_same h, decode_of_same h.observed]

theorem seenDisassemble_of_same (h : e'.Same e) (offset : UInt64) (sink : Sink AssemblyLine τ) (t : τ) :
    e'.seenDisassemble offset sink t = e.seenDisassemble offset sink t := by
  rw [seenDisassemble, seenDisassemble, disassemble_of_same h, disassemble_of_same h.observed]

end Engine

namespace ReusedEngine

theorem wellFormed_of_same {σ : Type} {e e' : ReusedEngine σ} (h : e'.plain.Same e.plain)
    (hw : e.language.WellFormed) : e'.language.WellFormed := by
  have hlanguage : e'.language = e.language := h.language
  rw [hlanguage]
  exact hw

section

variable {σ τ α : Type} [ByteSource σ] (spoil : Spoiling σ)

/-- What is seen of decoding. -/
def seenDecode (e : ReusedEngine σ) (offset : UInt64) (sink : Sink MicroOp τ) (t : τ) : Seen MicroOp :=
  (decode spoil e offset sink t).plain.seen (decode spoil.observed e.observed offset sink.witnessed (t, [])).plain

/-- What is seen of disassembling. -/
def seenDisassemble (e : ReusedEngine σ) (offset : UInt64) (sink : Sink AssemblyLine τ) (t : τ) : Seen AssemblyLine :=
  (disassemble spoil e offset sink t).plain.seen
    (disassemble spoil.observed e.observed offset sink.witnessed (t, [])).plain

/-- What calls make of an engine, any number of them, however each of them ends. -/
inductive Reaches (e : ReusedEngine σ) : ReusedEngine σ → Prop
  | refl : Reaches e e
  | decode {f : ReusedEngine σ} {υ : Type} (offset : UInt64) (sink : Sink MicroOp υ) (t : υ) :
      Reaches e f → Reaches e (decode spoil f offset sink t).engine
  | disassemble {f : ReusedEngine σ} {υ : Type} (offset : UInt64) (sink : Sink AssemblyLine υ) (t : υ) :
      Reaches e f → Reaches e (disassemble spoil f offset sink t).engine

variable {spoil} {e f : ReusedEngine σ}

theorem seenDecode_eq (hw : e.language.WellFormed) (offset : UInt64) (sink : Sink MicroOp τ) (t : τ) :
    seenDecode spoil e offset sink t = e.plain.seenDecode offset sink t := by
  have hobserved : e.observed.language.WellFormed := hw
  exact (decode_like spoil hw offset sink t).seen_eq (decode_like spoil.observed hobserved offset sink.witnessed (t, []))

theorem seenDisassemble_eq (hw : e.language.WellFormed) (offset : UInt64) (sink : Sink AssemblyLine τ) (t : τ) :
    seenDisassemble spoil e offset sink t = e.plain.seenDisassemble offset sink t := by
  have hobserved : e.observed.language.WellFormed := hw
  exact (disassemble_like spoil hw offset sink t).seen_eq
    (disassemble_like spoil.observed hobserved offset sink.witnessed (t, []))

/-- Calls change nothing but the source and what is left for later calls. -/
theorem Reaches.same (h : Reaches spoil e f) (hsource : f.source = e.source) : f.plain.Same e.plain := by
  have hkeeps : f.language = e.language ∧ f.context = e.context := by
    clear hsource
    induction h with
    | refl => exact ⟨rfl, rfl⟩
    | @decode g υ offset sink t _ ih =>
      have hengine := run_engine spoil g offset (microOps g.language) sink t
      exact ⟨(congrArg ReusedEngine.language hengine).trans ih.1, (congrArg ReusedEngine.context hengine).trans ih.2⟩
    | @disassemble g υ offset sink t _ ih =>
      have hengine := run_engine spoil g offset (assembly g.language) sink t
      exact ⟨(congrArg ReusedEngine.language hengine).trans ih.1, (congrArg ReusedEngine.context hengine).trans ih.2⟩
  exact ⟨hsource, hkeeps.1, hkeeps.2⟩

/-- A source that only reads is the same after any calls. -/
theorem Reaches.source_eq [ReadOnly σ] (hw : e.language.WellFormed) (h : Reaches spoil e f) : f.source = e.source := by
  induction h with
  | refl => rfl
  | @decode g υ offset sink t hreaches ih =>
    have hg := wellFormed_of_same (hreaches.same ih) hw
    exact ((decode_like spoil hg offset sink t).engine.source.trans (g.plain.same_run _ sink t).source).trans ih
  | @disassemble g υ offset sink t hreaches ih =>
    have hg := wellFormed_of_same (hreaches.same ih) hw
    exact ((disassemble_like spoil hg offset sink t).engine.source.trans (g.plain.same_run _ sink t).source).trans ih

/-- Whatever earlier calls left, and however they ended, a call on an engine with the same source, language
    and context has the same result, hands over the same records, asks for the same bytes and has the same
    latest bytes after it; they are those of the engine without storage. So a call that is made again over
    an unchanged source is seen again. -/
theorem calls_forget (spoil : Spoiling σ) {root : Element} (e e' : ReusedEngine σ) (offset : UInt64)
    (accepted : Language.ofElement root = .ok e.language) (same : e'.plain.Same e.plain) :
    (∀ (τ : Type) (sink : Sink MicroOp τ) (t : τ),
      (decode spoil e' offset sink t).plain.Like (decode spoil e offset sink t).plain ∧
        seenDecode spoil e' offset sink t = seenDecode spoil e offset sink t ∧
        seenDecode spoil e offset sink t = e.plain.seenDecode offset sink t ∧
        ∀ f, Reaches spoil e f → f.source = e.source →
          seenDecode spoil f offset sink t = seenDecode spoil e offset sink t) ∧
    (∀ (τ : Type) (sink : Sink AssemblyLine τ) (t : τ),
      (disassemble spoil e' offset sink t).plain.Like (disassemble spoil e offset sink t).plain ∧
        seenDisassemble spoil e' offset sink t = seenDisassemble spoil e offset sink t ∧
        seenDisassemble spoil e offset sink t = e.plain.seenDisassemble offset sink t ∧
        ∀ f, Reaches spoil e f → f.source = e.source →
          seenDisassemble spoil f offset sink t = seenDisassemble spoil e offset sink t) := by
  have hw := ofElement_wellFormed accepted
  have hw' := wellFormed_of_same same hw
  refine ⟨fun τ sink t => ?_, fun τ sink t => ?_⟩
  · have hseen : ∀ {f : ReusedEngine σ}, f.plain.Same e.plain →
        seenDecode spoil f offset sink t = seenDecode spoil e offset sink t := fun h => by
      rw [seenDecode_eq (wellFormed_of_same h hw), seenDecode_eq hw, Engine.seenDecode_of_same h]
    refine ⟨?_, hseen same, seenDecode_eq hw offset sink t, fun f hf hsource => hseen (hf.same hsource)⟩
    have hlike := decode_like spoil hw' offset sink t
    rw [Engine.decode_of_same same] at hlike
    exact hlike.trans (decode_like spoil hw offset sink t).symm
  · have hseen : ∀ {f : ReusedEngine σ}, f.plain.Same e.plain →
        seenDisassemble spoil f offset sink t = seenDisassemble spoil e offset sink t := fun h => by
      rw [seenDisassemble_eq (wellFormed_of_same h hw), seenDisassemble_eq hw, Engine.seenDisassemble_of_same h]
    refine ⟨?_, hseen same, seenDisassemble_eq hw offset sink t, fun f hf hsource => hseen (hf.same hsource)⟩
    have hlike := disassemble_like spoil hw' offset sink t
    rw [Engine.disassemble_of_same same] at hlike
    exact hlike.trans (disassemble_like spoil hw offset sink t).symm

end

/-- Bytes and operations of another instruction, and a call that fails, make no difference to `inc`. -/
theorem calls_forget_inc :
    let source : FlatImage := ⟨0, [0x11]⟩
    let spoil : Spoiling FlatImage := fun _ _ buffer => buffer
    let e : ReusedEngine FlatImage :=
      ⟨source, Sample.language, .ofFields Sample.language.contextFields, [], ⟨List.replicate 8 0, rfl⟩, 0⟩
    let e' : ReusedEngine FlatImage :=
      { e with ops := [⟨.branch, none, []⟩], buffer := ⟨List.replicate 8 0x20, rfl⟩, used := 2 }
    let failed := decode spoil e 1 Sink.ops .empty
    Language.ofElement Sample.root = .ok e.language ∧ e'.plain.Same e.plain ∧ e'.plain.lastBytes ≠ e.plain.lastBytes ∧
      failed.result = .error (.byteSource 1 1 (.outOfRange 1 1)) ∧
      (seenDecode spoil e 0 Sink.ops .empty).result = .ok 1 ∧
      seenDecode spoil e' 0 Sink.ops .empty = seenDecode spoil e 0 Sink.ops .empty ∧
      seenDecode spoil failed.engine 0 Sink.ops .empty = seenDecode spoil e 0 Sink.ops .empty :=
  ⟨Sample.accepted, ⟨rfl, rfl, rfl⟩, by decide, by rfl, by rfl,
    ((calls_forget _ _ _ 0 Sample.accepted ⟨rfl, rfl, rfl⟩).1 _ Sink.ops .empty).2.1,
    ((calls_forget _ _ _ 0 Sample.accepted ⟨rfl, rfl, rfl⟩).1 _ Sink.ops .empty).2.2.2 _
      (.decode 1 Sink.ops .empty .refl) rfl⟩

end ReusedEngine

end Lifter
