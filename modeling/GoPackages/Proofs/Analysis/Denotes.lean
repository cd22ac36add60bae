import GoPackages.Analysis.Initializer
import GoPackages.Proofs.TypeGraph.Path

/-!
# The reference that a type expression stands for

A relation between type expressions and references of a graph, part by part: decorators
are entries around the inner reference, and types written in place have their own entry and
type. What names stand for is a parameter.
-/
namespace GoPackages

open Source (TypeExpr Field Expr)

/-- What bare and qualified names stand for. -/
structure Meaning where
  bare : String → RefId → Prop
  qualified : Expr → String → RefId → Prop

structure Meaning.Refines (m m' : Meaning) : Prop where
  bare : ∀ n r, m.bare n r → m'.bare n r
  qualified : ∀ base n r, m.qualified base n r → m'.qualified base n r

theorem Meaning.Refines.refl (m : Meaning) : m.Refines m := ⟨fun _ _ h => h, fun _ _ _ h => h⟩

/-- The name `r` was bound to `ty`, one of the types from `lo` on. -/
def TypeGraph.Holds (g : TypeGraph) (lo : Nat) (r : RefId) (ty : TypeId) (kind : TypeKind) :
    Prop :=
  (∃ e, g.entryAt? r = some (.named e) ∧ e.type = some ty) ∧ lo ≤ ty.index ∧
    g.kind? ty = some kind

mutual

def Denotes (g : TypeGraph) (lo : Nat) (m : Meaning) (type : TypeExpr) (r : RefId) : Prop :=
  match type with
  | .named name _ => m.bare name r
  | .selector base name _ => m.qualified (base ()) name r
  | .pointer elem => ∃ inner, g.entryAt? r = some (.decorated .pointer inner) ∧
      Denotes g lo m (elem ()) inner
  | .array _ elem => ∃ inner, g.entryAt? r = some (.decorated .array inner) ∧
      Denotes g lo m (elem ()) inner
  | .slice elem => ∃ inner, g.entryAt? r = some (.decorated .array inner) ∧
      Denotes g lo m (elem ()) inner
  | .chan _ elem => ∃ inner, g.entryAt? r = some (.decorated .channel inner) ∧
      Denotes g lo m (elem ()) inner
  | .ellipsis elem => ∃ inner, g.entryAt? r = some (.decorated .ellipsis inner) ∧
      Denotes g lo m (elem ()) inner
  | .map key value => ∃ ty t, g.Holds lo r ty (.map t) ∧
      Denotes g lo m (key ()) t.key ∧ Denotes g lo m (value ()) t.value
  | .func params results => ∃ ty t, g.Holds lo r ty (.method t) ∧
      ArgumentsDenote g lo m params t.arguments ∧ ArgumentsDenote g lo m results t.results
  | .interface _ => r = TypeGraph.emptyInterface
  | .struct fields => ∃ ty t, g.Holds lo r ty (.struct t) ∧ FieldsDenote g lo m fields t.fields
  | .paren inner => Denotes g lo m (inner ()) r
  | .bad => False
termination_by structural type

def ArgumentsDenote (g : TypeGraph) (lo : Nat) (m : Meaning) (fields : List Field)
    (arguments : List Argument) : Prop :=
  match fields with
  | [] => arguments = []
  | ⟨names, type, _, _⟩ :: rest => ∃ r others, arguments = Argument.ofNames names r ++ others ∧
      Denotes g lo m (type ()) r ∧ ArgumentsDenote g lo m rest others
termination_by structural fields

def FieldsDenote (g : TypeGraph) (lo : Nat) (m : Meaning) (fields : List Field)
    (stored : List StructField) : Prop :=
  match fields with
  | [] => stored = []
  | ⟨names, type, _, doc⟩ :: rest => ∃ r typeName tag others,
      stored = StructField.ofNames names typeName r tag (doc.getD []) ++ others ∧
      Denotes g lo m (type ()) r ∧ FieldsDenote g lo m rest others
termination_by structural fields

end

/-- What a denotation relies on: the way through the decorators, and the types from `lo` on
with the names bound to them. -/
structure TypeGraph.Keeps (lo : Nat) (g g' : TypeGraph) : Prop where
  decorated : ∀ r d inner, g.entryAt? r = some (.decorated d inner) →
    g'.entryAt? r = some (.decorated d inner)
  bound : ∀ r e ty, g.entryAt? r = some (.named e) → e.type = some ty →
    ∃ e', g'.entryAt? r = some (.named e') ∧ e'.type = some ty
  kinds : ∀ ty kind, lo ≤ ty.index → g.kind? ty = some kind → g'.kind? ty = some kind

theorem TypeGraph.Keeps.refl (lo : Nat) (g : TypeGraph) : TypeGraph.Keeps lo g g :=
  ⟨fun _ _ _ h => h, fun _ e _ h ht => ⟨e, h, ht⟩, fun _ _ _ h => h⟩

theorem TypeGraph.Keeps.trans {lo : Nat} {g h i : TypeGraph} (hgh : TypeGraph.Keeps lo g h)
    (hhi : TypeGraph.Keeps lo h i) : TypeGraph.Keeps lo g i where
  decorated r d inner he := hhi.decorated r d inner (hgh.decorated r d inner he)
  bound r e ty he ht := by
    obtain ⟨e', he', ht'⟩ := hgh.bound r e ty he ht
    exact hhi.bound r e' ty he' ht'
  kinds ty kind hlo hk := hhi.kinds ty kind hlo (hgh.kinds ty kind hlo hk)

theorem TypeGraph.Holds.kept {g g' : TypeGraph} {lo lo' : Nat} {r ty kind}
    (h : g.Holds lo r ty kind) (hk : TypeGraph.Keeps lo g g') (hl : lo' ≤ lo) :
    g'.Holds lo' r ty kind := by
  obtain ⟨⟨e, he, ht⟩, hlo, hkind⟩ := h
  exact ⟨hk.bound r e ty he ht, Nat.le_trans hl hlo, hk.kinds ty kind hlo hkind⟩

section Mono

variable {g g' : TypeGraph} {lo lo' : Nat} {m m' : Meaning}

mutual

theorem Denotes.mono (hk : TypeGraph.Keeps lo g g') (hl : lo' ≤ lo) (hm : m.Refines m')
    (type : TypeExpr) (r : RefId) (h : Denotes g lo m type r) : Denotes g' lo' m' type r := by
  cases type with
  | named name args => exact hm.bare name r h
  | selector base name args => exact hm.qualified _ name r h
  | pointer elem | array _ elem | slice elem | chan _ elem | ellipsis elem =>
    obtain ⟨inner, he, hd⟩ := h
    exact ⟨inner, hk.decorated r _ inner he, Denotes.mono hk hl hm (elem ()) inner hd⟩
  | map key value =>
    obtain ⟨ty, t, hh, hkey, hvalue⟩ := h
    exact ⟨ty, t, hh.kept hk hl, Denotes.mono hk hl hm (key ()) _ hkey,
      Denotes.mono hk hl hm (value ()) _ hvalue⟩
  | func params results =>
    obtain ⟨ty, t, hh, hp, hr⟩ := h
    exact ⟨ty, t, hh.kept hk hl, ArgumentsDenote.mono hk hl hm params _ hp,
      ArgumentsDenote.mono hk hl hm results _ hr⟩
  | interface elems => exact h
  | struct fields =>
    obtain ⟨ty, t, hh, hf⟩ := h
    exact ⟨ty, t, hh.kept hk hl, FieldsDenote.mono hk hl hm fields _ hf⟩
  | paren inner => exact Denotes.mono hk hl hm (inner ()) r h
  | bad => exact h
termination_by structural type

theorem ArgumentsDenote.mono (hk : TypeGraph.Keeps lo g g') (hl : lo' ≤ lo)
    (hm : m.Refines m') (fields : List Field) (arguments : List Argument)
    (h : ArgumentsDenote g lo m fields arguments) : ArgumentsDenote g' lo' m' fields arguments := by
  match fields with
  | [] => exact h
  | ⟨names, type, _, _⟩ :: rest =>
    obtain ⟨r, others, he, hd, ho⟩ := h
    exact ⟨r, others, he, Denotes.mono hk hl hm (type ()) r hd,
      ArgumentsDenote.mono hk hl hm rest others ho⟩
termination_by structural fields

theorem FieldsDenote.mono (hk : TypeGraph.Keeps lo g g') (hl : lo' ≤ lo)
    (hm : m.Refines m') (fields : List Field) (stored : List StructField)
    (h : FieldsDenote g lo m fields stored) : FieldsDenote g' lo' m' fields stored := by
  match fields with
  | [] => exact h
  | ⟨names, type, _, doc⟩ :: rest =>
    obtain ⟨r, typeName, tag, others, he, hd, ho⟩ := h
    exact ⟨r, typeName, tag, others, he, Denotes.mono hk hl hm (type ()) r hd,
      FieldsDenote.mono hk hl hm rest others ho⟩
termination_by structural fields

end

end Mono

end GoPackages
