import Mathlib.Data.List.Forall2
import Mathlib.Data.List.Induction
import Mathlib.Data.List.Nodup
import GoPackages.Proofs.FirstOccurrences
import GoPackages.Proofs.Source.Growth

/-!
# Interning

A table of strings and its buckets are kept in step: a symbol lies in the bucket of the hash of its
string, and in no other one. So a bucket may hold several strings, all of them if the hash is
constant, and the search in it still finds the one symbol of a string. From this the numbers follow
as an order of first occurrences, whatever the hash is.
-/
namespace GoPackages.Source.Interner

variable {hash : String → UInt64} {t : Interner hash} {s s' : String} {symbol symbol' : Symbol}

def internAll (t : Interner hash) : List String → List Symbol × Interner hash
  | [] => ([], t)
  | s :: rest =>
    let (symbol, next) := t.intern s
    let (symbols, last) := next.internAll rest
    (symbol :: symbols, last)

/-- Strings and buckets are in step. -/
structure Coherent (t : Interner hash) : Prop where
  few : t.size ≤ UInt32.size
  distinct : t.strings.toList.Nodup
  filed : ∀ h symbol, symbol ∈ t.buckets.getD h [] ↔
    ∃ s, t.resolve? symbol = some s ∧ hash s = h

theorem coherent_empty : ({} : Interner hash).Coherent where
  few := Nat.zero_le _
  distinct := List.nodup_nil
  filed h symbol := by simp [resolve?]

theorem mem_strings_of_resolve? (h : t.resolve? symbol = some s) : s ∈ t.strings.toList := by
  rw [resolve?, ← Array.getElem?_toList] at h
  exact List.mem_of_getElem? h

namespace Coherent

theorem index_eq (h : t.Coherent) (hs : t.resolve? symbol = some s) :
    symbol.index.toNat = t.strings.toList.idxOf s := by
  rw [resolve?, ← Array.getElem?_toList] at hs
  obtain ⟨hlt, hget⟩ := List.getElem?_eq_some_iff.mp hs
  rw [← hget]
  exact (h.distinct.idxOf_getElem _ hlt).symm

theorem symbol_unique (h : t.Coherent) (hs : t.resolve? symbol = some s)
    (hs' : t.resolve? symbol' = some s) : symbol = symbol' := by
  have hindex : symbol.index.toNat = symbol'.index.toNat :=
    (h.index_eq hs).trans (h.index_eq hs').symm
  cases symbol
  cases symbol'
  exact congrArg Symbol.mk (UInt32.toNat_inj.mp hindex)

theorem exists_symbol (h : t.Coherent) (hs : s ∈ t.strings.toList) :
    ∃ symbol, t.resolve? symbol = some s := by
  obtain ⟨k, hk⟩ := List.mem_iff_getElem?.mp hs
  rw [Array.getElem?_toList] at hk
  have hlt : k < UInt32.size := by
    have hsize := (Array.getElem?_eq_some_iff.mp hk).1
    have hfew := h.few
    simp only [size] at hfew
    omega
  refine ⟨⟨UInt32.ofNat k⟩, ?_⟩
  rw [resolve?, UInt32.toNat_ofNat_of_lt' hlt, hk]

theorem get?_eq_some_iff (h : t.Coherent) :
    t.get? s = some symbol ↔ t.resolve? symbol = some s := by
  constructor
  · intro hget
    exact resolve?_of_get? hget
  · intro hs
    -- the symbol lies in the bucket that is searched, and no other one there has this string
    have hmem : symbol ∈ t.bucket s := (h.filed _ _).mpr ⟨s, hs, rfl⟩
    have hfound : (t.get? s).isSome := by
      rw [get?, List.find?_isSome]
      exact ⟨symbol, hmem, by simp [hs]⟩
    obtain ⟨found, hget⟩ := Option.isSome_iff_exists.mp hfound
    rw [hget, h.symbol_unique (resolve?_of_get? hget) hs]

theorem get?_eq_none_iff (h : t.Coherent) : t.get? s = none ↔ s ∉ t.strings.toList := by
  constructor
  · intro hnone hmem
    obtain ⟨symbol, hs⟩ := h.exists_symbol hmem
    rw [h.get?_eq_some_iff.mpr hs] at hnone
    cases hnone
  · intro hnew
    rw [Option.eq_none_iff_forall_ne_some]
    intro symbol hget
    exact hnew (mem_strings_of_resolve? (resolve?_of_get? hget))

end Coherent

theorem intern_of_none (hnew : t.get? s = none) :
    (t.intern s).2 = ⟨t.strings.push s,
      t.buckets.insert (hash s) (t.bucket s ++ [⟨UInt32.ofNat t.strings.size⟩])⟩ := by
  simp [intern, hnew]

theorem resolve?_intern_of_none (hnew : t.get? s = none) (hroom : t.size < UInt32.size) :
    (t.intern s).2.resolve? symbol =
      if symbol = ⟨UInt32.ofNat t.strings.size⟩ then some s else t.resolve? symbol := by
  have hindex : (UInt32.ofNat t.strings.size).toNat = t.strings.size :=
    UInt32.toNat_ofNat_of_lt' hroom
  rw [intern_of_none hnew, resolve?, Array.getElem?_push]
  by_cases hsymbol : symbol = ⟨UInt32.ofNat t.strings.size⟩
  · rw [if_pos hsymbol, hsymbol, if_pos hindex]
  · have hne : symbol.index.toNat ≠ t.strings.size := by
      intro heq
      apply hsymbol
      cases symbol
      exact congrArg Symbol.mk (UInt32.toNat_inj.mp (heq.trans hindex.symm))
    rw [if_neg hsymbol, if_neg hne, resolve?]

namespace Coherent

/-- A string takes its own bucket along, and every other bucket stays. -/
theorem intern (h : t.Coherent) (hroom : t.size < UInt32.size) (s : String) :
    (t.intern s).2.Coherent := by
  cases hget : t.get? s with
  | some symbol =>
    rw [intern_of_get? hget]
    exact h
  | none =>
    have hfiled : ∀ b symbol, symbol ∈ (t.intern s).2.buckets.getD b [] ↔
        symbol ∈ t.buckets.getD b [] ∨ symbol = ⟨UInt32.ofNat t.strings.size⟩ ∧ hash s = b := by
      intro b symbol
      rw [intern_of_none hget, Std.HashMap.getD_insert]
      by_cases hb : hash s = b
      · simp [hb, bucket]
      · simp [hb]
    have hfresh : t.resolve? ⟨UInt32.ofNat t.strings.size⟩ = none := by
      have hindex : (UInt32.ofNat t.strings.size).toNat = t.strings.size :=
        UInt32.toNat_ofNat_of_lt' hroom
      exact Array.getElem?_eq_none (Nat.le_of_eq hindex.symm)
    constructor
    · have hsize := size_intern_le t s
      omega
    · rw [intern_of_none hget, Array.toList_push, List.nodup_append]
      refine ⟨h.distinct, List.nodup_singleton s, ?_⟩
      intro v hv w hw heq
      rw [List.mem_singleton] at hw
      exact h.get?_eq_none_iff.mp hget (hw ▸ heq ▸ hv)
    · intro b symbol
      rw [hfiled, h.filed, resolve?_intern_of_none hget hroom]
      by_cases hsymbol : symbol = ⟨UInt32.ofNat t.strings.size⟩
      · simp [hsymbol, hfresh]
      · simp [hsymbol]

theorem strings_intern_of_mem (h : t.Coherent) (hs : s ∈ t.strings.toList) :
    (t.intern s).2.strings.toList = t.strings.toList := by
  obtain ⟨symbol, hsymbol⟩ := h.exists_symbol hs
  rw [intern_of_get? (h.get?_eq_some_iff.mpr hsymbol)]

theorem strings_intern_of_notMem (h : t.Coherent) (hs : s ∉ t.strings.toList) :
    (t.intern s).2.strings.toList = t.strings.toList ++ [s] := by
  rw [intern_of_none (h.get?_eq_none_iff.mpr hs), Array.toList_push]

end Coherent

theorem internAll_append (t : Interner hash) (front back : List String) :
    (t.internAll (front ++ back)).2 = ((t.internAll front).2.internAll back).2 := by
  induction front generalizing t with
  | nil => rfl
  | cons s rest ih => exact ih (t.intern s).2

theorem resolve?_internAll (h : t.resolve? symbol = some s) (words : List String) :
    (t.internAll words).2.resolve? symbol = some s := by
  induction words generalizing t with
  | nil => exact h
  | cons w rest ih => exact ih (strings_intern h w)

theorem Coherent.internAll {words : List String} (h : t.Coherent)
    (hroom : t.size + words.length ≤ UInt32.size) : (t.internAll words).2.Coherent := by
  induction words generalizing t with
  | nil => exact h
  | cons s rest ih =>
    have hsize := size_intern_le t s
    rw [List.length_cons] at hroom
    have hnext : t.size < UInt32.size := by omega
    have hrest : (t.intern s).2.size + rest.length ≤ UInt32.size := by omega
    exact ih (h.intern hnext s) hrest

theorem answers_resolve {words : List String} (hroom : t.size + words.length ≤ UInt32.size)
    (more : List String) :
    List.Forall₂ (fun s symbol => ((t.internAll words).2.internAll more).2.resolve? symbol = some s)
      words (t.internAll words).1 := by
  induction words generalizing t with
  | nil => exact .nil
  | cons s rest ih =>
    have hsize := size_intern_le t s
    rw [List.length_cons] at hroom
    have hnext : t.size < UInt32.size := by omega
    have hrest : (t.intern s).2.size + rest.length ≤ UInt32.size := by omega
    have hanswer : (t.intern s).2.resolve? (t.intern s).1 = some s := resolve?_intern hnext s
    exact .cons (resolve?_internAll (resolve?_internAll hanswer rest) more) (ih hrest)

section New

variable (hash) {words : List String} (hfew : words.length ≤ UInt32.size)
include hfew

theorem new_coherent : (({} : Interner hash).internAll words).2.Coherent := by
  apply coherent_empty.internAll
  simpa [size] using hfew

theorem new_answers_resolve (more : List String) :
    List.Forall₂ (fun s symbol =>
        ((({} : Interner hash).internAll words).2.internAll more).2.resolve? symbol = some s)
      words (({} : Interner hash).internAll words).1 := by
  apply answers_resolve
  simpa [size] using hfew

theorem new_strings :
    (({} : Interner hash).internAll words).2.strings.toList = words.eraseDups := by
  induction words using List.reverseRecOn with
  | nil => rfl
  | append_singleton words s ih =>
    rw [List.length_append, List.length_singleton] at hfew
    have hfront : words.length ≤ UInt32.size := by omega
    have hstrings := ih hfront
    have hcoherent := new_coherent hash hfront
    have hlast : (({} : Interner hash).internAll (words ++ [s])).2 =
        ((({} : Interner hash).internAll words).2.intern s).2 := internAll_append _ _ _
    rw [hlast]
    by_cases hs : s ∈ words
    · have hold := List.mem_eraseDups.mpr hs
      rw [← hstrings] at hold
      rw [hcoherent.strings_intern_of_mem hold, hstrings, eraseDups_concat_of_mem hs]
    · have hnew : s ∉ words.eraseDups := fun hm => hs (List.mem_eraseDups.mp hm)
      rw [← hstrings] at hnew
      rw [hcoherent.strings_intern_of_notMem hnew, hstrings, eraseDups_concat_of_notMem hs]

theorem new_get?_eq_some_iff : (({} : Interner hash).internAll words).2.get? s = some symbol ↔
    (s, symbol) ∈ words.zip (({} : Interner hash).internAll words).1 := by
  have hcoherent := new_coherent hash hfew
  have hanswers := List.forall₂_iff_zip.mp (new_answers_resolve hash hfew [])
  rw [hcoherent.get?_eq_some_iff]
  constructor
  · intro hs
    have hword : s ∈ words := by
      have hmem := mem_strings_of_resolve? hs
      rw [new_strings hash hfew] at hmem
      exact List.mem_eraseDups.mp hmem
    rw [← List.map_fst_zip (Nat.le_of_eq hanswers.1)] at hword
    obtain ⟨⟨_, answer⟩, hmem, rfl⟩ := List.mem_map.mp hword
    rwa [hcoherent.symbol_unique hs (hanswers.2 hmem)]
  · intro hmem
    exact hanswers.2 hmem

end New

/-- Whatever the hash is, the strings of up to `2 ^ 32` calls on a new table are numbered in the
order of their first occurrences, and every call is answered with the number of its string. The
answers lead back to the strings after any more calls. A string is found exactly if it was interned
and then under its answer, which no other string has. Strings and buckets are in step. -/
theorem strings_are_numbered_by_first_occurrence (hash : String → UInt64)
    {words : List String} (hfew : words.length ≤ UInt32.size) (more : List String) :
    let answers := (({} : Interner hash).internAll words).1
    let table := (({} : Interner hash).internAll words).2
    let later := (table.internAll more).2
    table.Coherent ∧ table.strings.toList = words.eraseDups ∧
      answers.map (·.index.toNat) = words.map words.eraseDups.idxOf ∧
      List.Forall₂ (fun s symbol => later.resolve? symbol = some s) words answers ∧
      (∀ s symbol, table.get? s = some symbol ↔ (s, symbol) ∈ words.zip answers) ∧
      (∀ s symbol, table.get? s = some symbol ↔ table.resolve? symbol = some s) ∧
      ∀ s s' symbol symbol', (s, symbol) ∈ words.zip answers → (s', symbol') ∈ words.zip answers →
        (symbol = symbol' ↔ s = s') := by
  intro answers table later
  have hcoherent : table.Coherent := new_coherent hash hfew
  have hstrings : table.strings.toList = words.eraseDups := new_strings hash hfew
  have hfound : ∀ s symbol, table.get? s = some symbol ↔ (s, symbol) ∈ words.zip answers :=
    fun s symbol => new_get?_eq_some_iff hash hfew
  have hresolve : ∀ s symbol, table.get? s = some symbol ↔ table.resolve? symbol = some s :=
    fun s symbol => hcoherent.get?_eq_some_iff
  refine ⟨hcoherent, hstrings, ?_, new_answers_resolve hash hfew more, hfound, hresolve, ?_⟩
  · have hanswers : List.Forall₂ (fun s symbol => words.eraseDups.idxOf s = symbol.index.toNat)
        words answers := by
      refine (new_answers_resolve hash hfew []).imp ?_
      intro s symbol hs
      rw [← hstrings]
      exact (hcoherent.index_eq hs).symm
    have hmaps := List.forall₂_map_left_iff.mpr (List.forall₂_map_right_iff.mpr hanswers)
    rw [List.forall₂_eq_eq_eq] at hmaps
    exact hmaps.symm
  · intro s s' symbol symbol' hs hs'
    rw [← hfound, hresolve] at hs hs'
    constructor
    · rintro rfl
      exact Option.some.inj (hs.symm.trans hs')
    · rintro rfl
      exact hcoherent.symbol_unique hs hs'

/-- One bucket for all strings, some of which come again. -/
theorem oneBucket_is_numbered :
    let answers := (({} : Interner fun _ => 0).internAll ["b", "a", "b", "", "a"]).1
    let table := (({} : Interner fun _ => 0).internAll ["b", "a", "b", "", "a"]).2
    ["b", "a", "b", "", "a"].length ≤ UInt32.size ∧
      answers.map (·.index.toNat) = [0, 1, 0, 2, 1] ∧ table.get? "" = some ⟨2⟩ ∧
        table.get? "c" = none := by
  intro answers table
  have hfew : ["b", "a", "b", "", "a"].length ≤ UInt32.size := by decide
  obtain ⟨-, -, hanswers, -, hfound, -⟩ :=
    strings_are_numbered_by_first_occurrence (fun _ => 0) hfew []
  refine ⟨hfew, hanswers.trans (by decide +kernel), (hfound "" ⟨2⟩).mpr (by decide +kernel), ?_⟩
  rw [Option.eq_none_iff_forall_ne_some]
  intro symbol hget
  have hword := (List.of_mem_zip ((hfound "c" symbol).mp hget)).1
  exact absurd hword (by decide)

end GoPackages.Source.Interner
