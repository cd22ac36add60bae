import GoPackages.Proofs.Analysis.Views
import GoPackages.TypeGraph.Compatible

/-!
# The identity of references and signatures

References are the same where aliases lead to one reference. An operation sends all references
that stand for one canonical reference to one place, so what is the same stays the same, and
with the references the signatures that are made of them. Decorated references stand for
themselves in every graph.
-/
namespace GoPackages.TypeGraph

section Graph

variable {g : TypeGraph} {a b r : RefId} {m n : TypeId}

theorem sameRef_iff : g.sameRef a b = true ↔ g.canonical a = g.canonical b := beq_iff_eq

theorem equivalence_sameRef (g : TypeGraph) : Equivalence fun a b => g.sameRef a b = true where
  refl a := sameRef_refl g a
  symm h := sameRef_iff.mpr (sameRef_iff.mp h).symm
  trans h h' := sameRef_iff.mpr ((sameRef_iff.mp h).trans (sameRef_iff.mp h'))

theorem canonical_of_not_hasRef (h : ¬g.HasRef r) : g.canonical r = r := by
  refine follow_of_none ?_ _
  cases he : g.entryAt? r with
  | none => rfl
  | some e => exact absurd (hasRef_of_entryAt? he) h

theorem sameRef_cases (hg : g.Grounded) (h : g.sameRef a b = true) :
    a = b ∨ g.HasRef a ∧ g.HasRef b := by
  have heq := sameRef_iff.mp h
  have hstays : ∀ r, g.HasRef r → g.HasRef (g.canonical r) := fun r => View.whole.hasRef_of hg
  by_cases ha : g.HasRef a
  · by_cases hb : g.HasRef b
    · exact .inr ⟨ha, hb⟩
    · rw [canonical_of_not_hasRef hb] at heq
      exact absurd (heq ▸ hstays a ha) hb
  · rw [canonical_of_not_hasRef ha] at heq
    by_cases hb : g.HasRef b
    · exact absurd (heq ▸ hstays b hb) ha
    · exact .inl (heq.trans (canonical_of_not_hasRef hb))

theorem Grounded.sameRef_iff_walks (hg : g.Grounded) (ha : g.HasRef a) (hb : g.HasRef b) :
    g.sameRef a b = true ↔
      ∃ c, Walk g RefEntry.aliasTarget? a c ∧ Walk g RefEntry.aliasTarget? b c := by
  rw [sameRef_iff]
  constructor
  · intro h
    exact ⟨g.canonical a, hg.canonical_walk ha, h ▸ hg.canonical_walk hb⟩
  · rintro ⟨c, hac, hbc⟩
    rw [hg.canonical_eq hac, hg.canonical_eq hbc]

theorem Grounded.alike_of_sameRef (hg : g.Grounded) (h : g.sameRef a b = true) :
    g.Alike a b := by
  rcases sameRef_cases hg h with rfl | ⟨ha, hb⟩
  · exact ⟨rfl, rfl, rfl, rfl, rfl, rfl, rfl⟩
  · exact alike_of_canonical hg ha hb (sameRef_iff.mp h)

theorem not_sameRef_of_decorated {d e : Decorator} {s t : RefId} (hne : a ≠ b)
    (ha : g.entryAt? a = some (.decorated d s)) (hb : g.entryAt? b = some (.decorated e t)) :
    g.sameRef a b = false := by
  rw [Bool.eq_false_iff]
  intro h
  have heq := sameRef_iff.mp h
  rw [canonical_of_decorated ha, canonical_of_decorated hb] at heq
  exact hne heq

def signature? (g : TypeGraph) (m : TypeId) : Option (List RefId × List RefId) :=
  (g.methodType? m).map fun type =>
    (type.arguments.map fun a => g.canonical a.type, type.results.map fun a => g.canonical a.type)

theorem sameTypes_iff_forall₂ {as bs : List Argument} :
    g.sameTypes as bs = true ↔
      List.Forall₂ (fun a b => g.sameRef a.type b.type = true) as bs := by
  rw [sameTypes_iff, ← List.forall₂_eq_eq_eq, List.forall₂_map_left_iff,
    List.forall₂_map_right_iff]
  simp only [sameRef_iff]

theorem compatible_iff :
    g.compatible m n = true ↔
      (g.signature? m).isSome = true ∧ g.signature? m = g.signature? n := by
  unfold compatible signature?
  cases g.methodType? m with
  | none => simp
  | some type =>
    cases g.methodType? n with
    | none => simp
    | some other => simp [sameSignature, sameTypes_iff]

theorem compatible_trans {l : TypeId} (h : g.compatible m n = true)
    (h' : g.compatible n l = true) : g.compatible m l = true := by
  obtain ⟨hsome, heq⟩ := compatible_iff.mp h
  exact compatible_iff.mpr ⟨hsome, heq.trans (compatible_iff.mp h').2⟩

theorem equivalence_compatible (g : TypeGraph) :
    Equivalence fun m n : {m // (g.methodType? m).isSome = true} => g.compatible m n = true where
  refl m := compatible_iff.mpr ⟨by simpa [signature?] using m.2, rfl⟩
  symm h := by
    obtain ⟨hsome, heq⟩ := compatible_iff.mp h
    exact compatible_iff.mpr ⟨heq ▸ hsome, heq.symm⟩
  trans h h' := compatible_trans h h'

theorem methodType?_eq_some_iff {type : MethodType} :
    g.methodType? m = some type ↔ ∃ data, g.typeAt? m = some data ∧ data.kind = .method type := by
  unfold methodType? kind?
  cases g.typeAt? m with
  | none => simp
  | some data => cases hk : data.kind <;> simp [hk]

end Graph

section Step

variable {g : TypeGraph} {op : Operation} {a b : RefId} {m n : TypeId}

theorem next_cases (h : Reachable g) (he : g.Enabled op) :
    KeepsEdges g (g.next op) ∨
      ∃ r target, AliasEffect g r target (g.next op) ∧ AliasEntries g r target (g.next op) := by
  cases op with
  | placeholder | fresh | decorate => exact .inl (keepsEdges_addRef g _)
  | mapOf package key value =>
    have htype : ∀ data, KeepsEdges g (g.addType data).2 := fun _ => .of_refs_eq rfl
    exact .inl ((htype _).trans (keepsEdges_addRef _ _))
  | addType | editStruct | editInterface => exact .inl (.of_refs_eq rfl)
  | bind r ty => exact .inl (keepsEdges_bind g r ty)
  | addMethod r method => exact .inl (keepsEdges_addMethod g r method)
  | aliasTo r target =>
    by_cases hne : g.namedRoot target = g.namedRoot r
    · refine .inl ?_
      rw [next, aliasTo?_eq, if_pos hne]
      exact .refl g
    · obtain ⟨g', hg', heffect, hentries⟩ := aliasTo?_of_ne h he.1 he.2 hne
      rw [next, hg']
      exact .inr ⟨r, target, heffect, hentries⟩

/-- What stood for one canonical reference stands for one canonical reference again. -/
theorem canonical_next (h : Reachable g) (he : g.Enabled op) :
    ∃ moved : RefId → RefId, ∀ x, g.HasRef x →
      (g.next op).canonical x = moved (g.canonical x) := by
  have hg := reachable_grounded h
  rcases next_cases h he with hkept | ⟨r, target, heffect, -⟩
  · exact ⟨id, fun x hx => View.whole.of_kept hg (step_preserves_grounded hg he) hkept hx⟩
  · refine ⟨fun c => if c = g.namedRoot r then g.canonical target else c, fun x hx => ?_⟩
    exact heffect.canonical x hx

theorem sameRef_next (h : Reachable g) (he : g.Enabled op) (hs : g.sameRef a b = true) :
    (g.next op).sameRef a b = true := by
  rcases sameRef_cases (reachable_grounded h) hs with rfl | ⟨ha, hb⟩
  · exact sameRef_refl _ a
  · obtain ⟨moved, hmoved⟩ := canonical_next h he
    rw [sameRef_iff, hmoved a ha, hmoved b hb, sameRef_iff.mp hs]

theorem decorated_next (h : Reachable g) (he : g.Enabled op) {d : Decorator}
    (hd : g.entryAt? a = some (.decorated d b)) :
    (g.next op).entryAt? a = some (.decorated d b) := by
  rcases next_cases h he with hkept | ⟨r, target, -, hentries⟩
  · exact hkept.decorators a d b hd
  · exact hentries.decorated a d b hd

theorem methodType?_modifyType {ty : TypeId} {f : TypeData → TypeData} {type : MethodType}
    (hf : ∀ data, data.kind = .method type → (f data).kind = .method type)
    (hm : g.methodType? m = some type) : (g.modifyType ty f).methodType? m = some type := by
  obtain ⟨data, hd, hk⟩ := methodType?_eq_some_iff.mp hm
  rw [methodType?_eq_some_iff, typeAt?_modifyType, hd]
  refine ⟨_, rfl, ?_⟩
  split
  · exact hf data hk
  · exact hk

theorem methodType?_next (op : Operation) {type : MethodType}
    (hm : g.methodType? m = some type) : (g.next op).methodType? m = some type := by
  have hnew : ∀ data, (g.addType data).2.methodType? m = some type := by
    intro data
    obtain ⟨old, hold, hk⟩ := methodType?_eq_some_iff.mp hm
    refine methodType?_eq_some_iff.mpr ⟨old, ?_, hk⟩
    exact (typeAt?_addType_of_lt (hasType_of_typeAt? hold) data).trans hold
  have hsame : ∀ g' : TypeGraph, g'.types = g.types → g'.methodType? m = some type := by
    intro g' ht
    simpa [methodType?, kind?, typeAt?, ht] using hm
  cases op with
  | placeholder | fresh | decorate => exact hsame _ rfl
  | mapOf package key value => exact hnew _
  | addType data => exact hnew data
  | bind r ty =>
    refine methodType?_modifyType (g := g.modifyNamed _ _) (fun data hk => ?_) (hsame _ rfl)
    simp [hk, TypeKind.isDefined]
  | addMethod r method => exact hsame _ (types_addMethod g r method)
  | aliasTo r target =>
    refine hsame _ ?_
    simp only [next, aliasTo?_eq]
    split
    · rfl
    · exact types_addMethods _ _ _
  | editStruct ty f => exact methodType?_modifyType (fun data hk => by simp [hk]) hm
  | editInterface ty f => exact methodType?_modifyType (fun data hk => by simp [hk]) hm

theorem sameTypes_next (h : Reachable g) (he : g.Enabled op) {as bs : List Argument}
    (hs : g.sameTypes as bs = true) : (g.next op).sameTypes as bs = true :=
  sameTypes_iff_forall₂.mpr
    ((sameTypes_iff_forall₂.mp hs).imp fun _ _ hsame => sameRef_next h he hsame)

theorem compatible_next (h : Reachable g) (he : g.Enabled op) (hc : g.compatible m n = true) :
    (g.next op).compatible m n = true := by
  unfold compatible at hc ⊢
  split at hc
  next a b ha hb =>
    obtain ⟨hargs, hresults⟩ : g.sameTypes a.arguments b.arguments = true ∧
        g.sameTypes a.results b.results = true := by simpa [sameSignature] using hc
    rw [methodType?_next op ha, methodType?_next op hb]
    simp [sameSignature, sameTypes_next h he hargs, sameTypes_next h he hresults]
  · cases hc

end Step

/-- What identity is in one graph: aliases lead to one reference, from which everything is read,
and signatures are compared through it. -/
structure IdentityLaws (g : TypeGraph) : Prop where
  sameRef_iff : ∀ a b, g.HasRef a → g.HasRef b → (g.sameRef a b = true ↔
    ∃ c, Walk g RefEntry.aliasTarget? a c ∧ Walk g RefEntry.aliasTarget? b c)
  sameRef : Equivalence fun a b => g.sameRef a b = true
  alike : ∀ a b, g.sameRef a b = true → g.Alike a b
  compatible : Equivalence fun m n : {m // (g.methodType? m).isSome = true} =>
    g.compatible m n = true

/-- What a later graph keeps of an earlier one. -/
structure KeepsIdentity (g g' : TypeGraph) : Prop where
  sameRef : ∀ a b, g.sameRef a b = true → g'.sameRef a b = true
  compatible : ∀ m n, g.compatible m n = true → g'.compatible m n = true
  decorated : ∀ a d s, g.entryAt? a = some (.decorated d s) →
    g'.entryAt? a = some (.decorated d s)

theorem keepsIdentity_run {g : TypeGraph} (h : Reachable g) {ops : List Operation}
    (hv : g.ValidRun ops) : KeepsIdentity g (g.run ops) := by
  induction ops generalizing g with
  | nil => exact ⟨fun _ _ hs => hs, fun _ _ hc => hc, fun _ _ _ hd => hd⟩
  | cons op rest ih =>
    have hrest := ih (h.next op hv.1) hv.2
    constructor
    · intro a b hs
      exact hrest.sameRef a b (sameRef_next h hv.1 hs)
    · intro m n hc
      exact hrest.compatible m n (compatible_next h hv.1 hc)
    · intro a d s hd
      exact hrest.decorated a d s (decorated_next h hv.1 hd)

/-- Identity is an equivalence in every graph that operations reach, nothing tells the same
references apart, and no later operation separates references or signatures that were the same.
Two decorated references are never the same. -/
theorem identity_persists {g : TypeGraph} (h : Reachable g) :
    IdentityLaws g ∧ ∀ ops, g.ValidRun ops →
      (∀ a b, g.sameRef a b = true → (g.run ops).sameRef a b = true) ∧
      (∀ m n, g.compatible m n = true → (g.run ops).compatible m n = true) ∧
      ∀ a b d e s t, a ≠ b → g.entryAt? a = some (.decorated d s) →
        g.entryAt? b = some (.decorated e t) → (g.run ops).sameRef a b = false := by
  have hg := reachable_grounded h
  constructor
  · constructor
    · intro a b ha hb
      exact hg.sameRef_iff_walks ha hb
    · exact equivalence_sameRef g
    · intro a b hs
      exact hg.alike_of_sameRef hs
    · exact equivalence_compatible g
  · intro ops hv
    have hkept := keepsIdentity_run h hv
    refine ⟨hkept.sameRef, hkept.compatible, ?_⟩
    intro a b d e s t hne ha hb
    exact not_sameRef_of_decorated hne (hkept.decorated a d s ha) (hkept.decorated b e t hb)

/-- A name that is an alias of another, a pointer to each of them, and a function with a parameter
of each. -/
def aliased : List Operation :=
  [.placeholder none "A", .placeholder none "B", .aliasTo ⟨1⟩ ⟨2⟩, .decorate .pointer ⟨1⟩,
    .decorate .pointer ⟨2⟩,
    .addType { name := "f", package := none, kind := .method { arguments := [⟨"x", ⟨1⟩⟩] } },
    .addType { name := "g", package := none, kind := .method { arguments := [⟨"y", ⟨2⟩⟩] } }]

def aliasedAgain : List Operation :=
  [.placeholder none "C", .decorate .array ⟨5⟩, .aliasTo ⟨1⟩ ⟨6⟩]

theorem aliased_persists :
    ValidRun .new (aliased ++ aliasedAgain) ∧
    (run .new (aliased ++ aliasedAgain)).canonical ⟨1⟩ = ⟨6⟩ ∧
    (run .new (aliased ++ aliasedAgain)).sameRef ⟨1⟩ ⟨2⟩ = true ∧
    (run .new (aliased ++ aliasedAgain)).compatible ⟨1⟩ ⟨2⟩ = true ∧
    (run .new (aliased ++ aliasedAgain)).sameRef ⟨3⟩ ⟨4⟩ = false := by
  have hreach : Reachable (run .new aliased) := Reachable.new.run (by decide)
  obtain ⟨hsame, hcompatible, hdistinct⟩ :=
    (identity_persists hreach).2 aliasedAgain (by decide)
  refine ⟨by decide, by decide, hsame ⟨1⟩ ⟨2⟩ (by decide), hcompatible ⟨1⟩ ⟨2⟩ (by decide), ?_⟩
  exact hdistinct ⟨3⟩ ⟨4⟩ .pointer .pointer ⟨1⟩ ⟨2⟩ (by decide) (by decide) (by decide)

end GoPackages.TypeGraph
