import GoPackages.Proofs.Analysis.Denotes
import GoPackages.Proofs.Analysis.Extends

/-!
# Reading types in a scope

What a type expression is read as stands for it, by the meaning of names that the scope has
in the registry afterwards. Whether reading fails or not, the registry was only extended.
-/
namespace GoPackages

open Source (TypeExpr Field Expr)
open Registry (Extends)

namespace FileScope

structure Sound (scope : FileScope) (reg : Registry) : Prop where
  package : ∃ p, reg.package? scope.package = some p
  aliases : ∀ qualifier q, scope.aliases.get? qualifier = some q → ∃ p, reg.package? q = some p
  typeParams : ∀ n r, scope.typeParams.lookup n = some r → reg.graph.HasRef r

/-- A bare name is a type parameter or else a name in the table of a package in scope. A
package in front may get the name later, so the table need not be the first with the name. -/
def meaning (scope : FileScope) (reg : Registry) : Meaning where
  bare n r :=
    match scope.typeParams.lookup n with
    | some s => r = s
    | none => ∃ q ∈ scope.package :: scope.dotImports, reg.ref? q n = some r
  qualified base n r := ∃ qualifier q, base = .ident qualifier ∧
    scope.aliases.get? qualifier = some q ∧ reg.ref? q n = some r

theorem Sound.extended {scope : FileScope} {reg reg' : Registry} (h : scope.Sound reg)
    {pkg free} (he : Extends pkg free reg reg') : scope.Sound reg' where
  package := by
    obtain ⟨p, hp⟩ := h.package
    obtain ⟨refs, hr⟩ := he.packages _ _ hp
    exact ⟨_, hr⟩
  aliases qualifier q hq := by
    obtain ⟨p, hp⟩ := h.aliases qualifier q hq
    obtain ⟨refs, hr⟩ := he.packages _ _ hp
    exact ⟨_, hr⟩
  typeParams n r hr := he.hasRef (h.typeParams n r hr)

theorem Sound.insert_alias {scope : FileScope} {reg : Registry} (h : scope.Sound reg)
    {q : PackageId} (hq : ∃ p, reg.package? q = some p) (name : String) :
    FileScope.Sound { scope with aliases := scope.aliases.insert name q } reg := by
  refine ⟨h.package, fun qualifier q' hq' => ?_, h.typeParams⟩
  by_cases hn : name = qualifier
  · subst hn
    obtain rfl : q = q' := by simpa using hq'
    exact hq
  · exact h.aliases qualifier q' ((OrderedMap.get?_insert_of_ne hn _ _).symm.trans hq')

theorem meaning_refines (scope : FileScope) {reg reg' : Registry}
    (h : ∀ q n r, reg.ref? q n = some r → reg'.ref? q n = some r) :
    (scope.meaning reg).Refines (scope.meaning reg') where
  bare n r hr := by
    unfold meaning at hr ⊢
    dsimp only at hr ⊢
    split
    next s hs => rwa [hs] at hr
    next hs =>
      rw [hs] at hr
      obtain ⟨q, hq, hr⟩ := hr
      exact ⟨q, hq, h q n r hr⟩
  qualified base n r := fun ⟨qualifier, q, hb, ha, hr⟩ => ⟨qualifier, q, hb, ha, h q n r hr⟩

end FileScope

namespace Registry

def Unmade (reg : Registry) (ty : TypeId) : Prop := ¬reg.graph.HasType ty

variable {pkg : PackageId} {free : TypeId → Prop} {reg reg' : Registry} {lo : Nat}

theorem kind?_of_typeAt? {g : TypeGraph} {ty data} (h : g.typeAt? ty = some data) :
    g.kind? ty = some data.kind := by simp [TypeGraph.kind?, h]

theorem typeAt?_of_kind? {g : TypeGraph} {ty kind} (h : g.kind? ty = some kind) :
    ∃ data, g.typeAt? ty = some data ∧ data.kind = kind := Option.map_eq_some_iff.mp h

theorem Extends.keeps (h : Extends pkg free reg reg')
    (hf : ∀ ty, reg.graph.HasType ty → lo ≤ ty.index → ¬free ty) :
    TypeGraph.Keeps lo reg.graph reg'.graph where
  decorated r d inner := h.entries r _
  bound r e ty he ht := ⟨e, h.entries r _ he, ht⟩
  kinds ty kind hlo hkind := by
    obtain ⟨data, hd, rfl⟩ := typeAt?_of_kind? hkind
    exact kind?_of_typeAt? (h.types ty data (hf ty (TypeGraph.hasType_of_typeAt? hd) hlo) hd)

theorem Extends.keeps_all (h : Extends pkg reg.Unmade reg reg') :
    TypeGraph.Keeps lo reg.graph reg'.graph :=
  h.keeps fun _ ht _ hn => hn ht

end Registry

/-- What a step of reading does: it extends the registry, and its answer is good. -/
def Reads {α : Type} (scope : FileScope) (free : TypeId → Prop) (reg : Registry)
    (m : Analysis α) (good : α → Registry → Prop) : Prop :=
  After m reg (fun a reg' => Extends scope.package free reg reg' ∧ good a reg')
    (Extends scope.package free reg)

section Rules

variable {α β : Type} {scope : FileScope} {free : TypeId → Prop} {reg : Registry}
  {m : Analysis α} {good : α → Registry → Prop}

theorem Reads.mono (h : Reads scope free reg m good) {good' : α → Registry → Prop}
    (hg : ∀ a reg', Extends scope.package free reg reg' → good a reg' → good' a reg') :
    Reads scope free reg m good' :=
  After.mono h (fun a reg' ⟨he, ha⟩ => ⟨he, hg a reg' he ha⟩) fun _ he => he

theorem Reads.weaken (h : Reads scope free reg m good) {free' : TypeId → Prop}
    (hf : ∀ ty, free ty → free' ty) : Reads scope free' reg m good :=
  After.mono h (fun _ _ ⟨he, ha⟩ => ⟨he.weaken hf, ha⟩) fun _ he => he.weaken hf

theorem Reads.bind_within {free₁ : TypeId → Prop} {k : α → Analysis β}
    {good' : β → Registry → Prop} (hr : reg.Sound) (hs : scope.Sound reg)
    (h : Reads scope free₁ reg m good) (hf : ∀ ty, free₁ ty → free ty)
    (hk : ∀ a mid, Extends scope.package free₁ reg mid → mid.Sound → scope.Sound mid →
      good a mid → Reads scope free mid (k a) good') :
    Reads scope free reg (m >>= k) good' := by
  refine After.bind h (fun a mid ⟨he, ha⟩ => ?_) fun _ he => he.weaken hf
  exact After.mono (hk a mid he (he.sound hr) (hs.extended he) ha)
    (fun b reg' ⟨he', hb⟩ => ⟨(he.weaken hf).trans he', hb⟩)
    fun _ he' => (he.weaken hf).trans he'

theorem Reads.bind {k : α → Analysis β} {good' : β → Registry → Prop}
    (hr : reg.Sound) (hs : scope.Sound reg) (h : Reads scope free reg m good)
    (hk : ∀ a mid, Extends scope.package free reg mid → mid.Sound → scope.Sound mid →
      good a mid → Reads scope free mid (k a) good') :
    Reads scope free reg (m >>= k) good' :=
  Reads.bind_within hr hs h (fun _ hf => hf) hk

theorem Reads.after_ofGraph {f : TypeGraph → α × TypeGraph} {k : α → Analysis β}
    {good' : β → Registry → Prop} (he : Extends scope.package free reg (reg.onGraph f).2)
    (hk : Reads scope free (reg.onGraph f).2 (k (reg.onGraph f).1) good') :
    Reads scope free reg (Analysis.ofGraph f >>= k) good' :=
  After.mono (m := k (reg.onGraph f).1) hk (fun _ _ ⟨he', hb⟩ => ⟨he.trans he', hb⟩)
    fun _ he' => he.trans he'

theorem Reads.after_get {k : Registry → Analysis α} (hk : Reads scope free reg (k reg) good) :
    Reads scope free reg (get >>= k) good := hk

theorem Reads.after_modify {f : Registry → Registry} {k : PUnit → Analysis β}
    {good' : β → Registry → Prop} (he : Extends scope.package free reg (f reg))
    (hk : Reads scope free (f reg) (k ⟨⟩) good') :
    Reads scope free reg (modify f >>= k) good' :=
  After.mono (m := k ⟨⟩) hk (fun _ _ ⟨he', hb⟩ => ⟨he.trans he', hb⟩) fun _ he' => he.trans he'

theorem reads_pure {a : α} (ha : good a reg) : Reads scope free reg (pure a) good :=
  ⟨.refl .., ha⟩

theorem reads_throw (e : Error) : Reads scope free reg (throw e) good := .refl ..

end Rules

theorem FileScope.known?_mem {scope : FileScope} {reg : Registry} {name : String} {r : RefId}
    (h : scope.known? reg name = some r) : (scope.meaning reg).bare name r := by
  unfold known? at h
  unfold meaning
  dsimp only
  cases hl : scope.typeParams.lookup name with
  | some s =>
    rw [hl] at h
    exact (Option.some.inj h).symm
  | none =>
    rw [hl] at h
    obtain ⟨q, hq, hr⟩ := List.exists_of_findSome?_eq_some h
    exact ⟨q, hq, hr⟩

theorem FileScope.known?_hasRef {scope : FileScope} {reg : Registry}
    (hrefs : ∀ q n r, reg.ref? q n = some r → reg.graph.HasRef r) (hs : scope.Sound reg)
    {name : String} {r : RefId} (h : scope.known? reg name = some r) :
    reg.graph.HasRef r := by
  have hm := known?_mem h
  unfold meaning at hm
  dsimp only at hm
  split at hm
  next s hl => exact hm ▸ hs.typeParams name s hl
  next =>
    obtain ⟨q, _, hq⟩ := hm
    exact hrefs q name r hq

theorem resolveName_reads {scope : FileScope} {reg : Registry} (hr : reg.Sound)
    (hs : scope.Sound reg) (free : TypeId → Prop) (name : String) :
    Reads scope free reg (scope.resolveName name) fun r reg' =>
      reg'.graph.HasRef r ∧ (scope.meaning reg').bare name r := by
  unfold FileScope.resolveName
  split
  · exact reads_throw _
  · refine Reads.after_get ?_
    split
    next r hk => exact reads_pure ⟨FileScope.known?_hasRef hr.refs hs hk, FileScope.known?_mem hk⟩
    next hk =>
      obtain ⟨p, hp⟩ := hs.package
      refine ⟨Registry.extends_ensureRef _ _ name, Registry.hasRef_ensureRef hr.refs _ name, ?_⟩
      have hl : scope.typeParams.lookup name = none := by
        unfold FileScope.known? at hk
        split at hk
        · simp at hk
        · assumption
      simp only [FileScope.meaning, hl]
      exact ⟨scope.package, List.mem_cons_self, Registry.ref?_ensureRef hp name⟩

theorem resolveQualified_reads {scope : FileScope} {reg : Registry} (hr : reg.Sound)
    (hs : scope.Sound reg) (free : TypeId → Prop) (base : Expr) (name : String) :
    Reads scope free reg (scope.resolveQualified base name) fun r reg' =>
      reg'.graph.HasRef r ∧ (scope.meaning reg').qualified base name r := by
  unfold FileScope.resolveQualified
  split
  next qualifier =>
    split
    next q hq =>
      obtain ⟨p, hp⟩ := hs.aliases qualifier q hq
      exact ⟨Registry.extends_ensureRef _ q name, Registry.hasRef_ensureRef hr.refs q name,
        qualifier, q, rfl, hq, Registry.ref?_ensureRef hp name⟩
    next => exact reads_throw _
  next => exact reads_throw _

end GoPackages
