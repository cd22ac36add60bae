import GoPackages.Proofs.Analysis.Sites
import GoPackages.Proofs.Registry.Heads

/-!
# The entries of type parameters

A declaration makes a new entry with a new type for each of its type parameters. While it is read
a parameter stands for its entry, whatever the packages have under the name, and leaves their tables
alone.
-/
namespace GoPackages

open Source (TypeExpr Field)
open Registry (Extends)

/-- Every parameter has an entry of its own that was not there before, with a new type of its name.
The tables are as before. -/
structure Minted (pkg : PackageId) (reg : Registry) (params : List (String × RefId))
    (opened : Registry) : Prop where
  packages : opened.packages = reg.packages
  distinct : (params.map Prod.snd).Nodup
  fresh : ∀ n r, (n, r) ∈ params → ¬reg.graph.HasRef r
  typed : ∀ n r, (n, r) ∈ params → ∃ ty, ¬reg.graph.HasType ty ∧
    opened.graph.entryAt? r = some (.named { name := n, package := some pkg, type := some ty }) ∧
    opened.graph.typeAt? ty = some { name := n, package := some pkg, kind := .base }

theorem Minted.hasRef {pkg : PackageId} {reg mid : Registry} {params : List (String × RefId)}
    (h : Minted pkg reg params mid) {n : String} {r : RefId} (hr : (n, r) ∈ params) :
    mid.graph.HasRef r := by
  obtain ⟨ty, -, he, -⟩ := h.typed n r hr
  exact TypeGraph.hasRef_of_entryAt? he

theorem newTypeParams_minted {scope : FileScope} (names : List String) {reg mid : Registry}
    (hr : reg.Sound) (hs : scope.Sound reg) {params : List (String × RefId)}
    (h : scope.newTypeParams names reg = .ok params mid) :
    Minted scope.package reg params mid := by
  induction names generalizing reg params with
  | nil =>
    cases h
    exact ⟨rfl, List.nodup_nil, fun _ _ hp => (by cases hp), fun _ _ hp => (by cases hp)⟩
  | cons name names ih =>
    let data : TypeData := { name, package := some scope.package, kind := .base }
    let r := (opened reg scope.package data name).1
    let made := (opened reg scope.package data name).2
    have hpackages := newTypeParams_packages scope _ h
    obtain ⟨_, _, hty, h⟩ := bind_ok h
    cases hty
    obtain ⟨_, _, hfresh, h⟩ := bind_ok h
    cases hfresh
    obtain ⟨rest, last, hrest, h⟩ := bind_ok h
    cases h
    have hx : Extends scope.package reg.Unmade reg made := extends_opened reg _ data name _
    have hs' : scope.Sound made := hs.extended hx
    have hminted : Minted scope.package made rest mid := ih (hx.sound hr) hs' hrest
    obtain ⟨hlater, -⟩ := (newTypeParams_reads (hx.sound hr) hs' names).of_ok hrest
    have hself : made.graph.entryAt? r = some (.named
        { name, package := some scope.package, type := some ⟨reg.graph.types.size⟩ }) :=
      TypeGraph.entryAt?_addRef_self _ _
    have hnew : ¬reg.graph.HasRef r := Nat.lt_irrefl _
    have hunmade : ¬reg.graph.HasType ⟨reg.graph.types.size⟩ := Nat.lt_irrefl _
    have htype : made.graph.typeAt? ⟨reg.graph.types.size⟩ = some data :=
      TypeGraph.typeAt?_addType_self reg.graph data
    refine ⟨hpackages, List.nodup_cons.mpr ⟨?_, hminted.distinct⟩, ?_, ?_⟩
    · intro hm
      obtain ⟨⟨n, s⟩, hmem, heq⟩ := List.mem_map.mp hm
      obtain rfl : s = r := heq
      exact hminted.fresh n _ hmem (TypeGraph.hasRef_of_entryAt? hself)
    · intro n s hmem
      rcases List.mem_cons.mp hmem with heq | hmem
      · obtain ⟨rfl, rfl⟩ := Prod.mk.inj heq
        exact hnew
      · exact fun hold => hminted.fresh n s hmem (hx.hasRef hold)
    · intro n s hmem
      rcases List.mem_cons.mp hmem with heq | hmem
      · obtain ⟨rfl, rfl⟩ := Prod.mk.inj heq
        have hmade := TypeGraph.hasType_of_typeAt? htype
        exact ⟨_, hunmade, hlater.entries _ _ hself,
          hlater.types _ _ (fun hn => hn hmade) htype⟩
      · obtain ⟨ty, hnewer, hentry, hdata⟩ := hminted.typed n s hmem
        exact ⟨ty, fun hold => hnewer (hx.hasType hold), hentry, hdata⟩

/-- The scope `inner` of a declaration with the type parameters `names`, and the registry `opened`
with their entries. -/
structure ScopeOpened (scope : FileScope) (names : List String) (reg : Registry)
    (inner : FileScope) (opened : Registry) : Prop where
  before : reg.Sound
  opens : scope.withTypeParams names reg = .ok inner opened
  widens : inner = { scope with typeParams := inner.typeParams }
  named : inner.typeParams.map Prod.fst = names
  inScope : inner.Sound opened
  reads : Extends scope.package reg.Unmade reg opened
  made : TypeParamsMade opened inner.typeParams
  minted : Minted scope.package reg inner.typeParams opened

namespace ScopeOpened

variable {scope inner : FileScope} {names : List String} {reg opened : Registry}

theorem sound (h : ScopeOpened scope names reg inner opened) : opened.Sound :=
  h.reads.sound h.before

theorem package (h : ScopeOpened scope names reg inner opened) : inner.package = scope.package := by
  rw [h.widens]

end ScopeOpened

theorem withTypeParams_opens {scope : FileScope} {reg : Registry} (hr : reg.Sound)
    (hs : scope.Sound reg) (names : List String) :
    ∃ inner opened, ScopeOpened scope names reg inner opened := by
  have htotal := withTypeParams_total hr hs names
  cases hopen : scope.withTypeParams names reg with
  | error e opened => exact (htotal.of_error hopen).elim
  | ok inner opened =>
    obtain ⟨hx, hsi, params, rfl, hnames, hmade⟩ := htotal.of_ok hopen
    obtain ⟨_, _, hparams, hend⟩ := bind_ok hopen
    cases hend
    have hminted := newTypeParams_minted names hr hs hparams
    exact ⟨_, opened, hr, hopen, rfl, hnames, hsi, hx, hmade, hminted⟩

theorem Minted.name_unique {pkg : PackageId} {reg mid : Registry}
    {params : List (String × RefId)} (h : Minted pkg reg params mid) {n m : String} {r : RefId}
    (hn : (n, r) ∈ params) (hm : (m, r) ∈ params) : n = m :=
  congrArg Prod.fst (List.inj_on_of_nodup_map h.distinct hn hm rfl)

section Lookups

variable {scope : FileScope} {reg reg' : Registry} {name : String} {r s : RefId}

theorem mem_of_lookup {params : List (String × RefId)} (h : params.lookup name = some r) :
    (name, r) ∈ params := by
  obtain ⟨front, back, heq, -⟩ := List.lookup_eq_some_iff.mp h
  exact heq ▸ List.mem_append_right front List.mem_cons_self

theorem resolveName_of_param (hl : scope.typeParams.lookup name = some r) (hempty : name ≠ "")
    (hblank : name ≠ "_") (reg : Registry) : scope.resolveName name reg = .ok r reg := by
  have hget : (get : Analysis Registry) reg = .ok reg reg := rfl
  have hknown : scope.known? reg name = some r := by rw [FileScope.known?, hl]
  unfold FileScope.resolveName
  rw [if_neg (not_or.mpr ⟨hempty, hblank⟩)]
  refine (bind_eq_of_ok hget).trans ?_
  rw [hknown]
  rfl

theorem meaning_bare_param (hl : scope.typeParams.lookup name = some r) (reg : Registry) :
    (scope.meaning reg).bare name s ↔ s = r := by
  simp [FileScope.meaning, hl]

/-- The name that a type consists of, but for parentheses and the arguments of an instantiation. -/
def bareName? : TypeExpr → Option String
  | .named name _ => some name
  | .paren inner => bareName? (inner ())
  | _ => none

/-- A type is read as a reference that was there only if it is a name of a table or of a type
parameter, or an interface that is written in place. -/
theorem resolveType_old (hr : reg.Sound) (hs : scope.Sound reg) (type : TypeExpr)
    (h : resolveType scope type reg = .ok s reg') (hold : reg.graph.HasRef s) :
    s = TypeGraph.emptyInterface ∨ (∃ q n, reg.ref? q n = some s) ∨
      ∃ n, bareName? type = some n ∧ scope.typeParams.lookup n = some s := by
  have hobtained : ∀ {q n}, reg.Obtained q n s reg' → ∃ q n, reg.ref? q n = some s := by
    intro q n hob
    rcases hob.adds.placed q n s hob.slot with hslot | ⟨hnew, -⟩
    · exact ⟨q, n, hslot⟩
    · exact absurd hold hnew
  have hsite : View.whole.head type = .site → False := by
    intro hhead
    obtain ⟨hx, -, hsites⟩ := (resolveType_sites hr hs type).of_ok h
    obtain ⟨hnew, -⟩ := hsites .whole hhead
    have hg := TypeGraph.reachable_grounded hr.graph
    have hg' := TypeGraph.reachable_grounded (hx.sound hr).graph
    rw [View.of_kept .whole hg hg' hx.keepsEdges hold] at hnew
    exact hnew (View.hasRef_of .whole hg hold)
  cases type with
  | named n args =>
    cases hl : scope.typeParams.lookup n with
    | some t =>
      obtain ⟨rfl, -⟩ := resolveName_param hl h
      exact .inr (.inr ⟨n, rfl, hl⟩)
    | none => exact .inr (.inl (hobtained (resolveName_slot hs hl h)))
  | selector base n args =>
    obtain ⟨base, hbase⟩ : ∃ e, base () = e := ⟨_, rfl⟩
    change scope.resolveQualified _ n reg = _ at h
    rw [hbase] at h
    cases base with
    | ident qualifier =>
      cases hq : scope.aliases.get? qualifier with
      | some q => exact .inr (.inl (hobtained (resolveQualified_ok hs hq h)))
      | none =>
        unfold FileScope.resolveQualified at h
        dsimp only at h
        rw [hq] at h
        cases h
    | _ => cases h
  | paren inner => exact resolveType_old hr hs (inner ()) h hold
  | interface elems =>
    cases h
    exact .inl rfl
  | bad => cases h
  | pointer | array | slice | chan | ellipsis | map | func | struct => exact (hsite rfl).elim
termination_by structural type

end Lookups

end GoPackages
