import GoPackages.Proofs.TypeGraph.Identity

/-!
# Satisfied interfaces

An interface is satisfied by what has a method of the same signature for each of its methods.
This is a relation between sets of methods: it is transitive, interfaces of methods satisfy
themselves, and the order in which the methods were registered makes no difference.
-/
namespace GoPackages.TypeGraph

variable {g g' : TypeGraph} {a b c ty : TypeId} {m n : TypeId}

/-- Both are method types, with the same references for parameters and results, place by place. -/
def SameSignature (g : TypeGraph) (m n : TypeId) : Prop :=
  ∃ x y, g.methodType? m = some x ∧ g.methodType? n = some y ∧
    List.Forall₂ (fun p q => g.sameRef p.type q.type = true) x.arguments y.arguments ∧
    List.Forall₂ (fun p q => g.sameRef p.type q.type = true) x.results y.results

/-- The type has methods, the other is an interface, and each method of the interface has its
counterpart of the same name. -/
def Satisfies (g : TypeGraph) (a c : TypeId) : Prop :=
  ∃ own wanted, g.methodsOf? a = some own ∧ g.interfaceType? c = some wanted ∧
    ∀ name m, (name, m) ∈ wanted.methods.entries →
      ∃ found, (name, found) ∈ own.entries ∧ g.SameSignature found m

theorem compatible_iff_sameSignature : g.compatible m n = true ↔ g.SameSignature m n := by
  unfold compatible SameSignature
  cases g.methodType? m with
  | none => simp
  | some x =>
    cases g.methodType? n with
    | none => simp
    | some y => simp [sameSignature, sameTypes_iff_forall₂]

theorem interfaceType?_eq_some_iff {type : InterfaceType} :
    g.interfaceType? ty = some type ↔
      ∃ data, g.typeAt? ty = some data ∧ data.kind = .interface type := by
  unfold interfaceType? kind?
  cases g.typeAt? ty with
  | none => simp
  | some data => cases hk : data.kind <;> simp [hk]

theorem methodsOf?_of_interface {type : InterfaceType} (h : g.interfaceType? ty = some type) :
    g.methodsOf? ty = some type.methods := by
  obtain ⟨data, hd, hk⟩ := interfaceType?_eq_some_iff.mp h
  simp [methodsOf?, hd, hk]

theorem implements_iff_satisfies : g.implements a c = true ↔ g.Satisfies a c := by
  unfold implements Satisfies
  cases hwanted : g.interfaceType? c with
  | none => simp
  | some wanted =>
    cases hown : g.methodsOf? a with
    | none => simp
    | some own =>
      have hprovides : g.provides own wanted.methods = true ↔
          ∀ name m, (name, m) ∈ wanted.methods.entries →
            ∃ found, own.get? name = some found ∧ g.compatible found m = true := by
        simp [provides, Option.any_eq_true]
      simp [hprovides, OrderedMap.get?_eq_some_iff, compatible_iff_sameSignature]

theorem Satisfies.trans (h : g.Satisfies a b) (h' : g.Satisfies b c) :
    g.Satisfies a c := by
  obtain ⟨own, between, hown, hbetween, hfirst⟩ := h
  obtain ⟨own', wanted, hown', hwanted, hsecond⟩ := h'
  obtain rfl : between.methods = own' :=
    Option.some.inj ((methodsOf?_of_interface hbetween).symm.trans hown')
  refine ⟨own, wanted, hown, hwanted, fun name m hm => ?_⟩
  obtain ⟨middle, hmiddle, hmatch⟩ := hsecond name m hm
  obtain ⟨found, hfound, hmatch'⟩ := hfirst name middle hmiddle
  refine ⟨found, hfound, compatible_iff_sameSignature.mp ?_⟩
  exact compatible_trans (compatible_iff_sameSignature.mpr hmatch')
    (compatible_iff_sameSignature.mpr hmatch)

theorem satisfies_self {type : InterfaceType} (h : g.interfaceType? a = some type)
    (hm : ∀ name m, (name, m) ∈ type.methods.entries → (g.methodType? m).isSome = true) :
    g.Satisfies a a := by
  refine ⟨type.methods, type, methodsOf?_of_interface h, h, fun name m hmem => ?_⟩
  refine ⟨m, hmem, compatible_iff_sameSignature.mp (compatible_iff.mpr ⟨?_, rfl⟩)⟩
  simpa [signature?] using hm name m hmem

/-- Types that have methods in the one graph have them in the other, under each name the same,
and methods have the same signatures. -/
structure SameSets (g g' : TypeGraph) : Prop where
  signatures : ∀ m, g'.signature? m = g.signature? m
  interfaces : ∀ ty, (g.interfaceType? ty).isSome = true → (g'.interfaceType? ty).isSome = true
  methods : ∀ ty own, g.methodsOf? ty = some own →
    ∃ own', g'.methodsOf? ty = some own' ∧ ∀ name, own'.get? name = own.get? name

theorem SameSets.satisfies (h : SameSets g g') (hs : g.Satisfies a c) : g'.Satisfies a c := by
  obtain ⟨own, wanted, hown, hwanted, hmatch⟩ := hs
  obtain ⟨own', hown', hsame⟩ := h.methods a own hown
  obtain ⟨set, hset, hsame'⟩ := h.methods c _ (methodsOf?_of_interface hwanted)
  obtain ⟨wanted', hwanted'⟩ := Option.isSome_iff_exists.mp (h.interfaces c (by simp [hwanted]))
  obtain rfl : wanted'.methods = set :=
    Option.some.inj ((methodsOf?_of_interface hwanted').symm.trans hset)
  refine ⟨own', wanted', hown', hwanted', fun name m hm => ?_⟩
  have hold : wanted.methods.get? name = some m := by
    rw [← hsame' name]
    exact OrderedMap.get?_eq_some_iff.mpr hm
  obtain ⟨found, hfound, hsig⟩ := hmatch name m (OrderedMap.mem_of_find hold)
  refine ⟨found, OrderedMap.mem_of_find ((hsame name).trans ?_), ?_⟩
  · exact OrderedMap.get?_eq_some_iff.mpr hfound
  · rw [← compatible_iff_sameSignature, compatible_iff] at hsig ⊢
    rwa [h.signatures, h.signatures]

inductive Owner where
  | name (root : RefId)
  | interface (ty : TypeId)
  deriving DecidableEq

def owner? (g : TypeGraph) (ty : TypeId) : Option Owner :=
  (g.typeAt? ty).bind fun data =>
    match data.kind with
    | .interface _ => some (.interface ty)
    | .base | .struct _ => data.declaredBy.map fun r => .name (g.namedRoot r)
    | .method _ | .map _ => none

inductive Registration where
  | onName (r : RefId) (method : TypeId)
  | onInterface (ty : TypeId) (name : String) (method : TypeId)

namespace Registration

def operation : Registration → Operation
  | .onName r method => .addMethod r method
  | .onInterface ty name method =>
    .editInterface ty fun type => { type with methods := type.methods.insert name method }

def method : Registration → TypeId
  | .onName _ method => method
  | .onInterface _ _ method => method

/-- With whom and under which name the method is registered. On a name that is the name of the
method's type. -/
def key (g : TypeGraph) : Registration → Owner × String
  | .onName r method => (.name (g.namedRoot r), (g.typeAt? method).elim "" TypeData.name)
  | .onInterface ty name _ => (.interface ty, name)

end Registration

/-- What no registration changes: who keeps the methods of a type, which types are interfaces, the
keys of other registrations, and all signatures. -/
structure KeepsOwners (g g' : TypeGraph) : Prop where
  owners : ∀ ty, g'.owner? ty = g.owner? ty
  interfaces : ∀ ty, (g'.interfaceType? ty).isSome = (g.interfaceType? ty).isSome
  keys : ∀ x : Registration, x.key g' = x.key g
  signatures : ∀ m, g'.signature? m = g.signature? m

theorem KeepsOwners.trans {h : TypeGraph} (hg : KeepsOwners g g') (hh : KeepsOwners g' h) :
    KeepsOwners g h where
  owners ty := (hh.owners ty).trans (hg.owners ty)
  interfaces ty := (hh.interfaces ty).trans (hg.interfaces ty)
  keys x := (hh.keys x).trans (hg.keys x)
  signatures m := (hh.signatures m).trans (hg.signatures m)

theorem keepsOwners_modifyNamed (g : TypeGraph) (r : RefId) (f : NamedRef → NamedRef) :
    KeepsOwners g (g.modifyNamed r f) where
  owners ty := by
    simp only [owner?, namedRoot_modifyNamed]
    rfl
  interfaces ty := rfl
  keys x := by
    cases x with
    | onName s method =>
      simp only [Registration.key, namedRoot_modifyNamed]
      rfl
    | onInterface => rfl
  signatures m := by
    simp only [signature?, canonical_modifyNamed]
    rfl

section Interface

variable (g : TypeGraph) (ty : TypeId) (f : InterfaceType → InterfaceType)

theorem namedRoot_modifyInterface (s : RefId) :
    (g.modifyInterface ty f).namedRoot s = g.namedRoot s := namedRoot_modifyType g ty s _

theorem canonical_modifyInterface (s : RefId) :
    (g.modifyInterface ty f).canonical s = g.canonical s := by
  have h : ∀ s, ((g.modifyInterface ty f).entryAt? s).bind RefEntry.aliasTarget? =
      (g.entryAt? s).bind RefEntry.aliasTarget? := fun _ => rfl
  exact follow_congr h g.refs.size s

theorem refMethods_modifyInterface (s : RefId) :
    (g.modifyInterface ty f).refMethods s = g.refMethods s := by
  simp only [refMethods, named?, namedRoot_modifyInterface]
  rfl

theorem typeAt?_modifyInterface (t : TypeId) :
    (∃ data type, t = ty ∧ g.typeAt? t = some data ∧ data.kind = .interface type ∧
      (g.modifyInterface ty f).typeAt? t = some { data with kind := .interface (f type) }) ∨
    (t = ty → g.interfaceType? t = none) ∧
      (g.modifyInterface ty f).typeAt? t = g.typeAt? t := by
  unfold modifyInterface interfaceType? kind?
  rw [typeAt?_modifyType]
  by_cases ht : t = ty
  · subst ht
    cases hd : g.typeAt? t with
    | none => exact .inr ⟨fun _ => rfl, rfl⟩
    | some data =>
      cases hk : data.kind with
      | interface type => exact .inl ⟨data, type, rfl, rfl, hk, by simp [hk]⟩
      | base | struct | method | map => exact .inr ⟨fun _ => by simp [hk], by simp [hk]⟩
  · refine .inr ⟨fun h => absurd h ht, ?_⟩
    simp [Ne.symm ht]

theorem keepsOwners_modifyInterface : KeepsOwners g (g.modifyInterface ty f) := by
  constructor
  case owners =>
    intro t
    rcases typeAt?_modifyInterface g ty f t with ⟨data, type, -, hd, hk, heq⟩ | ⟨-, heq⟩
    · simp [owner?, heq, hd, hk]
    · simp only [owner?, heq, namedRoot_modifyInterface]
  case interfaces =>
    intro t
    rcases typeAt?_modifyInterface g ty f t with ⟨data, type, -, hd, hk, heq⟩ | ⟨-, heq⟩
    · simp [interfaceType?, kind?, heq, hd, hk]
    · simp only [interfaceType?, kind?, heq]
  case keys =>
    intro x
    cases x with
    | onName s method =>
      rcases typeAt?_modifyInterface g ty f method with ⟨data, type, -, hd, -, heq⟩ | ⟨-, heq⟩
      · simp [Registration.key, heq, hd, namedRoot_modifyInterface]
      · simp only [Registration.key, heq, namedRoot_modifyInterface]
    | onInterface => rfl
  case signatures =>
    intro t
    rcases typeAt?_modifyInterface g ty f t with ⟨data, type, -, hd, hk, heq⟩ | ⟨-, heq⟩
    · simp [signature?, methodType?, kind?, heq, hd, hk]
    · simp only [signature?, methodType?, kind?, heq, canonical_modifyInterface]

end Interface

theorem Registration.keepsOwners (x : Registration) (g : TypeGraph) :
    KeepsOwners g (g.next x.operation) := by
  cases x with
  | onName r method =>
    rw [operation, next, addMethod]
    split
    · exact ⟨fun _ => rfl, fun _ => rfl, fun _ => rfl, fun _ => rfl⟩
    · exact keepsOwners_modifyNamed g _ _
  | onInterface ty name method => exact keepsOwners_modifyInterface g ty _

theorem refMethods_addMethod (h : Reachable g) {r : RefId} (hr : g.HasRef r) {data : TypeData}
    (hd : g.typeAt? m = some data) (s : RefId) :
    (g.addMethod r m).2.refMethods s =
      if g.namedRoot s = g.namedRoot r then (g.refMethods s).insert data.name m
      else g.refMethods s := by
  obtain ⟨e, he⟩ := (reachable_grounded h).root_named hr
  unfold refMethods named?
  rw [namedRoot_addMethod]
  simp only [addMethod, hd]
  by_cases hs : g.namedRoot s = g.namedRoot r
  · simp [hs, entryAt?_modifyNamed_of_named he, he]
  · simp [hs, entryAt?_modifyNamed_of_ne (Ne.symm hs)]

theorem owner?_interface {t : TypeId} (h : g.owner? ty = some (.interface t)) :
    ty = t ∧ g.interfaceType? ty ≠ none := by
  unfold owner? at h
  obtain ⟨data, hd, howner⟩ := Option.bind_eq_some_iff.mp h
  cases hk : data.kind with
  | interface type =>
    rw [hk] at howner
    obtain rfl := Owner.interface.inj (Option.some.inj howner)
    exact ⟨rfl, by simp [interfaceType?, kind?, hd, hk]⟩
  | base | struct =>
    rw [hk] at howner
    obtain ⟨_, _, hname⟩ := Option.map_eq_some_iff.mp howner
    cases hname
  | method | map => rw [hk] at howner; cases howner

theorem Registration.methodsOf?_next (h : Reachable g) (x : Registration)
    (he : g.Enabled x.operation) (ty : TypeId) :
    (g.next x.operation).methodsOf? ty = (g.methodsOf? ty).map fun own =>
      if g.owner? ty = some (x.key g).1 then own.insert (x.key g).2 x.method else own := by
  cases x with
  | onName r method =>
    obtain ⟨data, hd⟩ := HasType.data he.2
    have htypes : (g.addMethod r method).2.typeAt? ty = g.typeAt? ty := by
      rw [typeAt?, types_addMethod, ← typeAt?]
    simp only [operation, next, methodsOf?, owner?, key, htypes, hd]
    cases hty : g.typeAt? ty with
    | none => rfl
    | some d =>
      cases hk : d.kind with
      | interface => simp [hk]
      | base | struct =>
        cases hown : d.declaredBy with
        | none => simp [hk, hown]
        | some s => simp [hk, hown, refMethods_addMethod h he.1 hd, Registration.method]
      | method | map => simp [hk]
  | onInterface t name method =>
    have hset : (g.modifyInterface t fun type =>
        { type with methods := type.methods.insert name method }).refMethods = g.refMethods :=
      funext (refMethods_modifyInterface g t _)
    rcases typeAt?_modifyInterface g t (fun type =>
        { type with methods := type.methods.insert name method }) ty with
      ⟨data, type, rfl, hd, hk, heq⟩ | ⟨hne, heq⟩
    · simp [operation, next, methodsOf?, owner?, key, heq, hd, hk, Registration.method]
    · have howner : g.owner? ty ≠ some (.interface t) := fun ho =>
        (owner?_interface ho).2 (hne (owner?_interface ho).1)
      simp only [operation, next, methodsOf?, key, heq, hset, howner, if_false, Option.map_id']

def gained (g : TypeGraph) (ty : TypeId) (regs : List Registration) : List (String × TypeId) :=
  regs.filterMap fun x =>
    if g.owner? ty = some (x.key g).1 then some ((x.key g).2, x.method) else none

def register (g : TypeGraph) (regs : List Registration) : TypeGraph :=
  g.run (regs.map Registration.operation)

theorem KeepsOwners.gained_eq (h : KeepsOwners g g') (ty : TypeId) (regs : List Registration) :
    g'.gained ty regs = g.gained ty regs := by
  simp only [gained, h.owners, h.keys]

theorem keepsOwners_register (g : TypeGraph) (regs : List Registration) :
    KeepsOwners g (g.register regs) := by
  induction regs generalizing g with
  | nil => exact ⟨fun _ => rfl, fun _ => rfl, fun _ => rfl, fun _ => rfl⟩
  | cons x rest ih => exact (x.keepsOwners g).trans (ih _)

theorem methodsOf?_register (h : Reachable g) {regs : List Registration}
    (hv : g.ValidRun (regs.map Registration.operation)) (ty : TypeId) :
    (g.register regs).methodsOf? ty =
      (g.methodsOf? ty).map fun own => own.insertAll (g.gained ty regs) := by
  induction regs generalizing g with
  | nil => exact Option.map_id'.symm
  | cons x rest ih =>
    have hrest := ih (h.next _ hv.1) hv.2
    rw [(x.keepsOwners g).gained_eq, x.methodsOf?_next h hv.1] at hrest
    refine hrest.trans ?_
    rw [Option.map_map]
    congr 1
    funext own
    by_cases ho : g.owner? ty = some (x.key g).1
    · simp [gained, ho, OrderedMap.insertAll]
    · simp [gained, ho]

theorem nodup_gained {regs : List Registration} (h : (regs.map (·.key g)).Nodup) (ty : TypeId) :
    ((g.gained ty regs).map Prod.fst).Nodup := by
  induction regs with
  | nil => exact List.nodup_nil
  | cons x rest ih =>
    obtain ⟨hnew, hrest⟩ := List.nodup_cons.mp h
    by_cases ho : g.owner? ty = some (x.key g).1
    · have hcons : g.gained ty (x :: rest) = ((x.key g).2, x.method) :: g.gained ty rest := by
        simp [gained, ho]
      rw [hcons, List.map_cons, List.nodup_cons]
      refine ⟨fun hmem => hnew ?_, ih hrest⟩
      obtain ⟨e, he, hname⟩ := List.mem_map.mp hmem
      obtain ⟨y, hy, hsome⟩ := List.mem_filterMap.mp he
      refine List.mem_map.mpr ⟨y, hy, ?_⟩
      by_cases ho' : g.owner? ty = some (y.key g).1
      · rw [if_pos ho'] at hsome
        obtain rfl := Option.some.inj hsome
        exact Prod.ext (Option.some.inj (ho'.symm.trans ho)) hname
      · rw [if_neg ho'] at hsome
        cases hsome
    · have hskip : g.gained ty (x :: rest) = g.gained ty rest := by simp [gained, ho]
      rw [hskip]
      exact ih hrest

/-- In another order the same methods are registered. -/
theorem sameSets_register (h : Reachable g) {regs regs' : List Registration}
    (hp : regs.Perm regs') (hv : g.ValidRun (regs.map Registration.operation))
    (hv' : g.ValidRun (regs'.map Registration.operation)) (hn : (regs.map (·.key g)).Nodup) :
    SameSets (g.register regs) (g.register regs') where
  signatures m := by
    rw [(keepsOwners_register g regs').signatures, (keepsOwners_register g regs).signatures]
  interfaces ty hi := by
    rw [(keepsOwners_register g regs').interfaces]
    rwa [(keepsOwners_register g regs).interfaces] at hi
  methods ty own ho := by
    rw [methodsOf?_register h hv] at ho
    obtain ⟨old, hold, rfl⟩ := Option.map_eq_some_iff.mp ho
    refine ⟨old.insertAll (g.gained ty regs'), ?_, fun name => ?_⟩
    · rw [methodsOf?_register h hv', hold]
      rfl
    · exact OrderedMap.get?_insertAll_perm (hp.filterMap _) (nodup_gained hn ty) old name

theorem Registration.enabled_next (x y : Registration) (g : TypeGraph) :
    (g.next x.operation).Enabled y.operation ↔ g.Enabled y.operation := by
  have hrefs : (g.next x.operation).refCount = g.refCount := by
    cases x with
    | onName r method => exact refCount_addMethod g r method
    | onInterface => rfl
  have htypes : (g.next x.operation).typeCount = g.typeCount := by
    cases x with
    | onName r method => simp [operation, next, typeCount]
    | onInterface => simp [operation, next, typeCount, modifyInterface, modifyType]
  cases y with
  | onName r method =>
    have hop : (onName r method).operation = .addMethod r method := rfl
    simp only [hop, Enabled, HasRef, HasType, hrefs, htypes]
  | onInterface => exact Iff.rfl

theorem validRun_register_iff {regs : List Registration} :
    g.ValidRun (regs.map Registration.operation) ↔ ∀ x ∈ regs, g.Enabled x.operation := by
  induction regs generalizing g with
  | nil => simp [ValidRun]
  | cons x rest ih => simp [ValidRun, ih, x.enabled_next]

/-- What satisfaction is in one graph: a transitive relation between sets of methods, for which
the order of registration makes no difference. -/
structure SatisfactionLaws (g : TypeGraph) : Prop where
  trans : ∀ a b c, g.implements a b = true → g.implements b c = true → g.implements a c = true
  refl : ∀ a type, g.interfaceType? a = some type →
    (∀ name m, (name, m) ∈ type.methods.entries → (g.methodType? m).isSome = true) →
    g.implements a a = true
  satisfies : ∀ a c, g.implements a c = true ↔ g.Satisfies a c
  unordered : ∀ regs regs' : List Registration, regs.Perm regs' →
    g.ValidRun (regs.map Registration.operation) → (regs.map (·.key g)).Nodup →
    ∀ a c, (g.register regs).implements a c = (g.register regs').implements a c

theorem satisfaction_laws {ops : List Operation} (hv : ValidRun .new ops) :
    SatisfactionLaws (run .new ops) := by
  have hreach : Reachable (run .new ops) := Reachable.new.run hv
  constructor
  · intro a b c hab hbc
    rw [implements_iff_satisfies] at hab hbc ⊢
    exact hab.trans hbc
  · intro a type hi hm
    exact implements_iff_satisfies.mpr (satisfies_self hi hm)
  · intro a c
    exact implements_iff_satisfies
  · intro regs regs' hp hregs hn a c
    have hregs' : (run .new ops).ValidRun (regs'.map Registration.operation) :=
      validRun_register_iff.mpr fun x hx => validRun_register_iff.mp hregs x (hp.mem_iff.mpr hx)
    have hn' := (hp.map _).nodup_iff.mp hn
    rw [Bool.eq_iff_iff, implements_iff_satisfies, implements_iff_satisfies]
    constructor
    · exact (sameSets_register hreach hp hregs hregs' hn).satisfies
    · exact (sameSets_register hreach hp.symm hregs' hregs hn').satisfies

/-- A struct behind a pointer, an interface of one method, an interface without methods so far, and
methods that differ in the names of their parameters. -/
def files : List Operation :=
  [.placeholder none "File", .decorate .pointer ⟨1⟩,
    .addType { name := "Read", package := none, kind := .method { arguments := [⟨"p", ⟨2⟩⟩] } },
    .addType { name := "Read", package := none, kind := .method { arguments := [⟨"b", ⟨2⟩⟩] } },
    .addType { name := "Close", package := none, kind := .method { results := [⟨"", ⟨0⟩⟩] } },
    .addType { name := "File", package := none, kind := .struct {} }, .bind ⟨1⟩ ⟨4⟩,
    .addType { name := "Reader", package := none,
               kind := .interface { methods := ({} : MethodSet).insert "Read" ⟨1⟩ } },
    .addType { name := "ReadCloser", package := none, kind := .interface {} }]

/-- The methods of the struct, through the pointer and directly, and those of the interface. -/
def fileMethods : List Registration :=
  [.onName ⟨2⟩ ⟨2⟩, .onInterface ⟨6⟩ "Read" ⟨1⟩, .onName ⟨1⟩ ⟨3⟩, .onInterface ⟨6⟩ "Close" ⟨3⟩]

theorem files_satisfy :
    ValidRun .new files ∧ SatisfactionLaws (run .new files) ∧
    ((run .new files).register fileMethods).implements ⟨4⟩ ⟨6⟩ = true ∧
    ((run .new files).register fileMethods.reverse).implements ⟨4⟩ ⟨6⟩ = true := by
  have hvalid : ValidRun .new files := by decide
  have hlaws : SatisfactionLaws (run .new files) := satisfaction_laws hvalid
  refine ⟨hvalid, hlaws, by decide, ?_⟩
  rw [← hlaws.unordered fileMethods fileMethods.reverse (List.reverse_perm _).symm (by decide)
    (by decide) ⟨4⟩ ⟨6⟩]
  decide

end GoPackages.TypeGraph
