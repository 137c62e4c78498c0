/-
  Lifter.Proofs.RegisterNames — names of registers and storage of registers.

  A name leads to a register through the index, storage leads to a name by going through
  the registers, in which several may be the same storage. In an accepted language the
  registers are the declared ones in the order of the description (`DeclaredInOrder`) and
  every name is declared once, so a name is found just if it is declared. Storage has the
  name of the first register in it: a register is known by its own name unless one
  declared before it is the same storage (`registerName?_own`). All this together is
  `Language.RegistersMatch`, which holds of every accepted language (`registers_match`).
-/

import Lifter.Engine
import Lifter.Proofs.Operands

namespace Lifter

open Specification

/-- The same run of bytes; spaces are told apart by their numbers. -/
structure Storage.Coincides (a b : Storage) : Prop where
  space : a.space.id = b.space.id
  offset : a.offset = b.offset
  size : a.size = b.size

theorem Storage.same_iff {a b : Storage} : a.same b = true ↔ a.Coincides b := by
  simp only [same, Bool.and_eq_true, beq_iff_eq]
  constructor
  · rintro ⟨⟨hspace, hoffset⟩, hsize⟩
    exact ⟨hspace, hoffset, hsize⟩
  · intro h
    exact ⟨⟨h.space, h.offset⟩, h.size⟩

/-! ## Lists of declarations -/

/-- Before the only `b` stand the members of the list that come before it. -/
theorem pair_sublist_iff {α : Type} {before behind : List α} {a b : α} (honly : b ∉ behind) :
    [a, b].Sublist (before ++ b :: behind) ↔ a ∈ before := by
  constructor
  · intro h
    obtain ⟨first, second, hsplit, hfirst, hsecond⟩ := List.sublist_append_iff.mp h
    cases first with
    | nil =>
      rw [List.nil_append] at hsplit
      subst hsplit
      exact absurd (List.singleton_sublist.mp hsecond.of_cons_cons) honly
    | cons c first =>
      obtain ⟨rfl, -⟩ := List.cons.inj hsplit
      exact hfirst.subset List.mem_cons_self
  · intro h
    have hpair : [a, b] = [a] ++ [b] := rfl
    rw [hpair]
    exact (List.singleton_sublist.mpr h).append (List.singleton_sublist.mpr List.mem_cons_self)

/-- In a list without a name twice, a name selects one member. -/
theorem filter_name {α : Type} {nameOf : α → String} {as : List α} (h : (as.map nameOf).Nodup) {a : α} (ha : a ∈ as) :
    as.filter (nameOf · == nameOf a) = [a] := by
  induction as with
  | nil => cases ha
  | cons b as ih =>
    obtain ⟨hnew, hrest⟩ := List.nodup_cons.mp h
    cases ha with
    | head =>
      have hnone : as.filter (nameOf · == nameOf a) = [] := by
        rw [List.filter_eq_nil_iff]
        intro c hc heq
        exact hnew (beq_iff_eq.mp heq ▸ List.mem_map_of_mem hc)
      rw [List.filter_cons, if_pos (beq_self_eq_true _), hnone]
    | tail _ ha =>
      have hne : ¬ (nameOf b == nameOf a) = true := by
        intro heq
        exact hnew (beq_iff_eq.mp heq ▸ List.mem_map_of_mem ha)
      rw [List.filter_cons, if_neg hne, ih hrest ha]

namespace Language

variable {l : Language} {name : String} {r : Register} {s : Storage}

theorem registerName?_eq_some :
    l.registerName? s = some name ↔ ∃ r, l.registers.find? (·.storage.same s) = some r ∧ r.name = name :=
  Option.map_eq_some_iff

/-- Storage has a name just if a register is that storage. -/
theorem exists_registerName?_iff :
    (∃ name, l.registerName? s = some name) ↔ ∃ r ∈ l.registers, r.storage.Coincides s := by
  rw [← Option.isSome_iff_exists, registerName?, Option.isSome_map, List.find?_isSome]
  simp only [Storage.same_iff]

namespace WellFormed

theorem register?_eq_some (h : l.WellFormed) : l.register? name = some r ↔ r ∈ l.registers ∧ r.name = name := by
  constructor
  · intro hfound
    rw [register?, h.registers.index.register?_eq] at hfound
    exact find?_name hfound
  · rintro ⟨hr, rfl⟩
    exact h.registers.index.register?_name hr

/-- Storage in one of the spaces is told by the number of the space, the offset and the size. -/
theorem storage_eq (h : l.WellFormed) {a b : Storage} (ha : a.space ∈ l.spaces) (hb : b.space ∈ l.spaces)
    (hsame : a.Coincides b) : a = b := by
  have hspace : some a.space = some b.space := by
    rw [← h.getElem?_spaces ha, ← h.getElem?_spaces hb, hsame.space]
  cases a
  cases b
  cases Option.some.inj hspace
  cases hsame.offset
  cases hsame.size
  rfl

/-- The name that storage has leads to a register that is this storage. -/
theorem registerName?_leads (h : l.WellFormed) (hname : l.registerName? s = some name) :
    ∃ r, l.register? name = some r ∧ r.storage.Coincides s ∧ (s.space ∈ l.spaces → r.storage = s) := by
  obtain ⟨r, hfound, hrname⟩ := registerName?_eq_some.mp hname
  have hr : r ∈ l.registers := List.mem_of_find?_eq_some hfound
  have hsame : r.storage.same s = true := List.find?_some (p := fun t : Register => t.storage.same s) hfound
  rw [Storage.same_iff] at hsame
  exact ⟨r, h.register?_eq_some.mpr ⟨hr, hrname⟩, hsame,
    fun hs => h.storage_eq (h.registers.each r hr).space_mem hs hsame⟩

/-- A register is known by its own name if no register before it is the same storage. -/
theorem registerName?_own (h : l.WellFormed) (hr : r ∈ l.registers) :
    l.registerName? r.storage = some r.name ↔
      ∀ t, [t, r].Sublist l.registers → ¬ t.storage.Coincides r.storage := by
  have hnodup : l.registers.Nodup := h.registers_distinct.of_map
  have hfirst : l.registerName? r.storage = some r.name ↔
      l.registers.find? (·.storage.same r.storage) = some r := by
    rw [registerName?_eq_some]
    constructor
    · rintro ⟨t, hfound, hname⟩
      have ht : l.register? r.name = some t := h.register?_eq_some.mpr ⟨List.mem_of_find?_eq_some hfound, hname⟩
      rw [h.register?_eq_some.mpr ⟨hr, rfl⟩] at ht
      rwa [← ht] at hfound
    · intro hfound
      exact ⟨r, hfound, rfl⟩
  have honly : ∀ before behind, l.registers = before ++ r :: behind → r ∉ behind := by
    intro before behind hsplit hmem
    rw [hsplit] at hnodup
    exact (List.nodup_cons.mp (List.nodup_append.mp hnodup).2.1).1 hmem
  rw [hfirst, List.find?_eq_some_iff_append]
  constructor
  · rintro ⟨-, before, behind, hsplit, hother⟩ t ht hsame
    rw [hsplit, pair_sublist_iff (honly before behind hsplit)] at ht
    have hdiffers := hother t ht
    rw [Storage.same_iff.mpr hsame] at hdiffers
    cases hdiffers
  · intro hother
    obtain ⟨before, behind, hsplit⟩ := List.append_of_mem hr
    refine ⟨Storage.same_iff.mpr ⟨rfl, rfl, rfl⟩, before, behind, hsplit, ?_⟩
    intro t ht
    have hpair : [t, r].Sublist l.registers := by
      rw [hsplit]
      exact (pair_sublist_iff (honly before behind hsplit)).mpr ht
    rw [Bool.not_eq_true', ← Bool.not_eq_true, Storage.same_iff]
    exact hother t hpair

end WellFormed

end Language

/-- What an engine gives for a name is the declared storage, since no register runs past the end of its space. -/
theorem Engine.register?_storage {σ : Type} (e : Engine σ) (h : e.language.WellFormed) (name : String) :
    (e.register? name).map (·.storage) = (e.language.register? name).map (·.storage) := by
  rw [Engine.register?, Option.map_map]
  cases hfound : e.language.register? name with
  | none => rfl
  | some r =>
    obtain ⟨hr, -⟩ := h.register?_eq_some.mp hfound
    rw [Option.map_some, Option.map_some, Function.comp_apply, (h.registers.each r hr).storage_fits.storage_varnode]

/-! ## Names and declarations -/

namespace Specification.DeclaredInOrder

variable {spaces : List Space} {ds : List RegisterDeclaration} {s : RegisterStore}

/-- A register whose name no other has is declared by one element. -/
theorem declaration (h : DeclaredInOrder spaces ds s) (hdistinct : (s.registers.map (·.name)).Nodup) {r : Register}
    (hr : r ∈ s.registers) : ∃ d, ds.filter (·.name? == some r.name) = [d] ∧ d.Declares spaces r := by
  have hsame : ∀ (d : RegisterDeclaration) (t : Register), d.Declares spaces t →
      ((d.name? == some r.name) = true ↔ (t.name == r.name) = true) := by
    intro d t hd
    rw [RegisterDeclaration.name?, hd.register.name, Option.some_beq_some]
  have hfiltered := List.rel_filter (fun d t hd => hsame d t hd) h
  rw [filter_name hdistinct hr] at hfiltered
  obtain ⟨d, rest, hd, hrest, hds⟩ := List.forall₂_cons_right_iff.mp hfiltered
  cases hrest
  exact ⟨d, hds, hd⟩

theorem exists_register (h : DeclaredInOrder spaces ds s) {d : RegisterDeclaration} (hd : d ∈ ds) :
    ∃ r ∈ s.registers, d.Declares spaces r :=
  exists_of_forall₂ h.flip d hd

end Specification.DeclaredInOrder

namespace Language

/-- The register that a name leads to is the one that the only element of this name declares. -/
theorem WellFormed.register?_declaration {l : Language} (h : l.WellFormed) {ds : List RegisterDeclaration}
    (horder : DeclaredInOrder l.spaces ds l.registerStore) {name : String} {r : Register}
    (hr : l.register? name = some r) : ∃ d, ds.filter (·.name? == some name) = [d] ∧ d.Declares l.spaces r := by
  obtain ⟨hmem, rfl⟩ := h.register?_eq_some.mp hr
  exact horder.declaration h.registers_distinct hmem

theorem WellFormed.exists_register?_iff {l : Language} (h : l.WellFormed) {ds : List RegisterDeclaration}
    (horder : DeclaredInOrder l.spaces ds l.registerStore) {name : String} :
    (∃ r, l.register? name = some r) ↔ ∃ d ∈ ds, d.name? = some name := by
  constructor
  · rintro ⟨r, hr⟩
    obtain ⟨d, hd, -⟩ := h.register?_declaration horder hr
    have hmem : d ∈ [d] := List.mem_singleton_self d
    rw [← hd, List.mem_filter, beq_iff_eq] at hmem
    exact ⟨d, hmem⟩
  · rintro ⟨d, hd, hname⟩
    obtain ⟨r, hr, hdeclares⟩ := horder.exists_register hd
    rw [RegisterDeclaration.name?, hdeclares.register.name] at hname
    exact ⟨r, h.register?_eq_some.mpr ⟨hr, Option.some.inj hname⟩⟩

/-- Names, declarations and storage of registers lead to each other. -/
structure RegistersMatch (l : Language) (ds : List RegisterDeclaration) : Prop where
  /-- The registers are the declared ones. -/
  inOrder : DeclaredInOrder l.spaces ds l.registerStore
  name_found : ∀ name, (∃ r, l.register? name = some r) ↔ ∃ d ∈ ds, d.name? = some name
  /-- Only one element declares the name, and the register is the one that it declares. -/
  name_declared : ∀ name r, l.register? name = some r →
    ∃ d, ds.filter (·.name? == some name) = [d] ∧ d.Declares l.spaces r
  storage_found : ∀ s, (∃ name, l.registerName? s = some name) ↔ ∃ r ∈ l.registers, r.storage.Coincides s
  /-- The name that storage has leads back to that storage. -/
  storage_named : ∀ s name, l.registerName? s = some name →
    ∃ r, l.register? name = some r ∧ r.storage.Coincides s ∧ (s.space ∈ l.spaces → r.storage = s)
  /-- A name leads back to itself unless a register declared earlier is the same storage. -/
  name_again : ∀ name r, l.register? name = some r →
    (l.registerName? r.storage = some name ↔ ∀ t, [t, r].Sublist l.registers → ¬ t.storage.Coincides r.storage)
  /-- An engine gives the storage as it is declared. -/
  unwrapped : ∀ {σ : Type} (e : Engine σ), e.language = l →
    ∀ name, (e.register? name).map (·.storage) = (l.register? name).map (·.storage)

end Language

/-- For every accepted language, names lead to the registers that the description declares by them, and storage to the
    first of the registers that are this storage. -/
theorem registers_match {root : Element} {l : Language} (accepted : Language.ofElement root = .ok l) :
    l.RegistersMatch (registerDeclarations (root.childrenNamed "registers")) := by
  have hw := ofElement_wellFormed accepted
  have horder := ofElement_registersInOrder accepted
  refine ⟨horder, fun _ => hw.exists_register?_iff horder, fun _ _ => hw.register?_declaration horder,
    fun _ => Language.exists_registerName?_iff, fun _ _ => hw.registerName?_leads, ?_, ?_⟩
  · intro name r hr
    obtain ⟨hmem, rfl⟩ := hw.register?_eq_some.mp hr
    exact hw.registerName?_own hmem
  · rintro σ e rfl name
    exact e.register?_storage hw name

namespace Sample

/-- The second block gives another name to a byte of the first one, and writes its offset in another way. -/
def aliasedRoot : Element :=
  ⟨"processor", [("name", "aliased"), ("endian", "big")], "",
    [⟨"spaces", [("default", "ram")], "",
        [leaf "space" [("name", "ram"), ("size", "2")], leaf "space" [("name", "register"), ("size", "1")]]⟩,
      ⟨"registers", [("space", "register")], "",
        [leaf "register" [("name", "WIDE"), ("offset", "0xfe"), ("size", "2")],
          leaf "register" [("name", "LAST"), ("offset", "0xff"), ("size", "1")]]⟩,
      ⟨"registers", [("space", "register")], "",
        [leaf "register" [("name", "TOP"), ("offset", "255"), ("size", "1")]]⟩,
      ⟨"instructions", [], "", []⟩]⟩

def wide : Register := ⟨"WIDE", ⟨registerSpace, 0xfe, 2⟩⟩

def last : Register := ⟨"LAST", ⟨registerSpace, 0xff, 1⟩⟩

def top : Register := ⟨"TOP", ⟨registerSpace, 0xff, 1⟩⟩

def aliased : Language :=
  { language with
    name := "aliased"
    registerStore := ⟨[wide, last, top], [("TOP", 2), ("LAST", 1), ("WIDE", 0)]⟩
    tables := []
    contextFields := []
    encodings := [] }

theorem aliased_accepted : Language.ofElement aliasedRoot = .ok aliased := by rfl

end Sample

/-- Two registers at the last offset of their space: the later one is known by the name of the earlier one. -/
theorem registers_match_aliased :
    Language.ofElement Sample.aliasedRoot = .ok Sample.aliased ∧
      Sample.aliased.RegistersMatch (registerDeclarations (Sample.aliasedRoot.childrenNamed "registers")) ∧
      Sample.aliased.register? "TOP" = some Sample.top ∧
      Sample.aliased.registerName? Sample.top.storage = some "LAST" ∧
      Sample.aliased.registerName? Sample.last.storage = some "LAST" :=
  ⟨Sample.aliased_accepted, registers_match Sample.aliased_accepted, by rfl, by rfl, by rfl⟩

end Lifter
