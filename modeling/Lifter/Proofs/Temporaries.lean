/-
  Lifter.Proofs.Temporaries — where temporaries lie.

  An expression `$offset:size` may name any offset below 2^63 and stands for storage in
  the space called `unique`. Registers are checked to end inside their space when they
  are read; temporaries are not, and their offsets are wrapped where they are handed
  over, to four bytes if the description does not declare the space itself. So two
  temporaries are apart just if their offsets differ modulo the extent of that space
  (`Engine.temporaries_apart`): inside it they keep their offsets, and past its end one
  comes to lie on another (`Engine.mix_coincides`).
-/

import Lifter.Proofs.Operands

namespace Lifter

open Specification

/-! ## Expressions -/

theorem magnitude?_lt {cs : List Char} {n : Nat} (h : magnitude? cs = some n) : n < capacity 63 := by
  obtain ⟨w, -, hw⟩ := Option.bind_eq_some_iff.mp h
  split at hw
  · cases hw
    assumption
  · cases hw

theorem integer?_bounds {cs : List Char} {n : Int} (h : integer? cs = some n) :
    -(capacity 63 : Int) < n ∧ n < capacity 63 := by
  have hpos := capacity_pos 63
  unfold integer? at h
  split at h
  all_goals
    obtain ⟨_, hm, rfl⟩ := Option.map_eq_some_iff.mp h
    obtain ⟨k, hk, hcast⟩ := Option.bind_eq_some_iff.mp hm
    cases hcast
    have hlt := magnitude?_lt hk
    omega

theorem readSized_bounds {expression : String} {cs : List Char} {value : Int} {size : Nat}
    (h : readSized expression cs = .ok (value, size)) : -(capacity 63 : Int) < value ∧ value < capacity 63 := by
  unfold readSized at h
  split at h
  · cases h
  · split at h
    · cases h
    · rename_i n hn
      split at h
      · cases h
      · split at h
        · cases h
          exact integer?_bounds hn
        · cases h

/-- The expression is that of a temporary of `size` bytes at `offset`. -/
def SpellsTemporary (text : String) (offset size : Nat) : Prop :=
  ∃ body, text.toList = '$' :: body ∧ readSized text body = .ok ((offset : Int), size)

namespace SpellsTemporary

variable {text : String} {offset size : Nat}

theorem readOperand_eq (h : SpellsTemporary text offset size) (spaces : List Space) (registers : RegisterStore)
    (fields : List OperandField) :
    readOperand spaces registers fields text = .ok (.temporary (UInt64.ofInt offset) size) := by
  obtain ⟨body, hbody, hsized⟩ := h
  simp only [readOperand, hbody, hsized]
  exact if_neg (by omega)

theorem toNat_offset (h : SpellsTemporary text offset size) : (UInt64.ofInt offset).toNat = offset := by
  obtain ⟨body, -, hsized⟩ := h
  obtain ⟨-, hlt⟩ := readSized_bounds hsized
  have hword := toNat_ofInt offset
  have hle : capacity 63 ≤ UInt64.size := capacity_le_size (by decide)
  rw [Int.emod_eq_of_lt (by omega) (by omega)] at hword
  exact Int.natCast_inj.mp hword

end SpellsTemporary

/-! ## Places -/

/-- The temporary lies in the space called `unique`, at its offset wrapped to that space. -/
structure PlacesTemporary (l : Language) (offset size : Nat) (v : Varnode) : Prop where
  space_eq : v.address.space = l.uniqueSpace
  space_name : v.address.space.name = uniqueSpaceName
  size_eq : v.size = size
  offset_eq : v.address.offset.toNat = offset % l.uniqueSpace.extent
  /-- Inside the space nothing is wrapped. -/
  exact : offset < l.uniqueSpace.extent → v.address.offset.toNat = offset

theorem SpellsTemporary.places {text : String} {offset size : Nat} (h : SpellsTemporary text offset size)
    {l : Language} (hw : l.WellFormed) {i : Instruction} {v : Varnode} (hv : i.StandsFor l text v) :
    PlacesTemporary l offset size v := by
  obtain ⟨o, ho, hv⟩ := hv
  rw [h.readOperand_eq] at ho
  cases ho
  cases hv
  have hoffset : (l.uniqueSpace.wrap (UInt64.ofInt offset)).toNat = offset % l.uniqueSpace.extent := by
    rw [Space.toNat_wrap, h.toNat_offset]
  exact ⟨rfl, hw.uniqueSpace_name, rfl, hoffset, fun hlt => hoffset.trans (Nat.mod_eq_of_lt hlt)⟩

/-- What is handed over for two temporaries of a description. -/
structure KeepsApart (l : Language) (offset size : Nat) (v : Varnode) (offset' size' : Nat) (v' : Varnode) : Prop where
  first : PlacesTemporary l offset size v
  second : PlacesTemporary l offset' size' v'
  coincide_iff : v.address.offset = v'.address.offset ↔ offset % l.uniqueSpace.extent = offset' % l.uniqueSpace.extent
  apart : offset < l.uniqueSpace.extent → offset' < l.uniqueSpace.extent → offset ≠ offset' →
    v.address.offset ≠ v'.address.offset

theorem PlacesTemporary.keepsApart {l : Language} {offset size offset' size' : Nat} {v v' : Varnode}
    (h : PlacesTemporary l offset size v) (h' : PlacesTemporary l offset' size' v') :
    KeepsApart l offset size v offset' size' v' := by
  refine ⟨h, h', ?_, fun hlt hlt' hne heq => hne ?_⟩
  · rw [← UInt64.toNat_inj, h.offset_eq, h'.offset_eq]
  · rw [← h.exact hlt, ← h'.exact hlt', heq]

/-- For every accepted language: two temporaries of its description are handed over at offsets that differ
    just if their own do, modulo the extent of the space of temporaries. -/
theorem Engine.temporaries_apart {σ ρ τ υ : Type} [ByteSource σ] [ByteSource ρ] {root : Element} {first : Engine σ}
    {second : Engine ρ} (accepted : Language.ofElement root = .ok first.language)
    (same : second.language = first.language) {here there : UInt64} {sink : Sink MicroOp τ} {t : τ}
    {sink' : Sink MicroOp υ} {t' : υ} {text text' : String} {offset size offset' size' : Nat} {v v' : Varnode}
    (spelled : SpellsTemporary text offset size) (spelled' : SpellsTemporary text' offset' size')
    (handed : first.HandsOver root here sink t text v) (handed' : second.HandsOver root there sink' t' text' v') :
    KeepsApart first.language offset size v offset' size' v' := by
  have hw := ofElement_wellFormed accepted
  obtain ⟨i, hi⟩ := handed.standsFor
  obtain ⟨j, hj⟩ := handed'.standsFor
  rw [same] at hj
  exact (spelled.places hw hi).keepsApart (spelled'.places hw hj)

namespace Sample

/-- Copies one temporary to another. -/
def mixElement (out : String) : Element :=
  ⟨"instruction", [("mnemonic", "mix"), ("length", "1"), ("mask", "0xff"), ("match", "0x10")], "",
    [leaf "op" [("code", "COPY"), ("out", out), ("in", "$0:1")]]⟩

def mix (out : UInt64) : Encoding where
  mnemonic := "mix"
  length := 1
  mask := 0xff
  bits := 0x10
  constraints := []
  fields := []
  operands := []
  ops := [⟨.copy, some (.temporary out 1), [.temporary 0 1]⟩]

def mixEngine (out : UInt64) : Engine FlatImage := .ofLanguage ⟨0, [0x10]⟩ (languageWith (mix out))

theorem mix_accepted : Language.ofElement (rootWith (mixElement "$1:1")) = .ok (mixEngine 1).language := by rfl

theorem mix_accepted_past : Language.ofElement (rootWith (mixElement "$0x100000000:1")) =
    .ok (mixEngine 0x100000000).language := by rfl

end Sample

theorem Engine.temporaries_apart_mix :
    let root := Sample.rootWith (Sample.mixElement "$1:1")
    let v := Storage.varnode ⟨Sample.unique, 1, 1⟩
    let v' := Storage.varnode ⟨Sample.unique, 0, 1⟩
    Language.ofElement root = .ok (Sample.mixEngine 1).language ∧
      SpellsTemporary "$1:1" 1 1 ∧ SpellsTemporary "$0:1" 0 1 ∧
      (Sample.mixEngine 1).HandsOver root 0 Sink.ops .empty "$1:1" v ∧
      (Sample.mixEngine 1).HandsOver root 0 Sink.ops .empty "$0:1" v' ∧
      KeepsApart (Sample.mixEngine 1).language 1 1 v 0 1 v' :=
  have handed : (Sample.mixEngine 1).HandsOver _ 0 Sink.ops .empty "$1:1" (Storage.varnode ⟨Sample.unique, 1, 1⟩) :=
    ⟨_, _, _, _, rfl, ⟨⟨_, rfl, List.mem_singleton_self _⟩, rfl⟩, List.mem_singleton_self _, List.mem_cons_self⟩
  have handed' : (Sample.mixEngine 1).HandsOver _ 0 Sink.ops .empty "$0:1" (Storage.varnode ⟨Sample.unique, 0, 1⟩) :=
    ⟨_, _, _, _, rfl, ⟨⟨_, rfl, List.mem_singleton_self _⟩, rfl⟩, List.mem_singleton_self _,
      List.mem_cons_of_mem _ List.mem_cons_self⟩
  ⟨Sample.mix_accepted, ⟨_, rfl, rfl⟩, ⟨_, rfl, rfl⟩, handed, handed',
    Engine.temporaries_apart Sample.mix_accepted rfl ⟨_, rfl, rfl⟩ ⟨_, rfl, rfl⟩ handed handed'⟩

/-- Past the end of the space, offset 2^32 is offset 0. -/
theorem Engine.mix_coincides :
    let root := Sample.rootWith (Sample.mixElement "$0x100000000:1")
    let engine := Sample.mixEngine 0x100000000
    Language.ofElement root = .ok engine.language ∧
      SpellsTemporary "$0x100000000:1" 0x100000000 1 ∧ SpellsTemporary "$0:1" 0 1 ∧
      ∃ v v', engine.HandsOver root 0 Sink.ops .empty "$0x100000000:1" v ∧
        engine.HandsOver root 0 Sink.ops .empty "$0:1" v' ∧ v.address.offset = v'.address.offset :=
  ⟨Sample.mix_accepted_past, ⟨_, rfl, rfl⟩, ⟨_, rfl, rfl⟩, Storage.varnode ⟨Sample.unique, 0x100000000, 1⟩,
    Storage.varnode ⟨Sample.unique, 0, 1⟩,
    ⟨_, _, _, _, rfl, ⟨⟨_, rfl, List.mem_singleton_self _⟩, rfl⟩, List.mem_singleton_self _, List.mem_cons_self⟩,
    ⟨_, _, _, _, rfl, ⟨⟨_, rfl, List.mem_singleton_self _⟩, rfl⟩, List.mem_singleton_self _,
      List.mem_cons_of_mem _ List.mem_cons_self⟩,
    by rfl⟩

end Lifter
