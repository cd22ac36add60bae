import GoPackages.Proofs.Environment.ListedInterfaces
import GoPackages.Proofs.Environment.RecordedImplementations
import GoPackages.Proofs.Registry.OverruledMethods

/-!
# Records that were overruled

A recording only adds to the lists of structs. Every interface in such a list was implemented when
one of the recordings listed it. Whether it still is depends on one thing that files read since then
may have done, which no later recording makes up for: declare one of the methods again, with another
signature.
-/
namespace GoPackages.Environment

variable {env : Environment}

/-- Every listed interface was listed before, or proven by one of the requests. -/
theorem mem_listed_performAll (hw : env.WellFormed) (hb : env.builtin ≠ none)
    {requests : List Request} (hn : env.NamesAll requests) {ty iface : TypeId}
    (hl : iface ∈ (env.performAll requests).registry.graph.listed ty) :
    iface ∈ env.registry.graph.listed ty ∨
      ∃ front q back, requests = front ++ .recordImplementations q :: back ∧
        (env.performAll front).registry.Proves q ty iface := by
  induction requests generalizing env with
  | nil => exact .inl hl
  | cons request rest ih =>
    have hlasts := perform_lasts hw.registry hn.1
    rcases ih (hlasts.keeps hw) (hlasts.builtin.symm ▸ hb) hn.2 hl with
      hmid | ⟨front, q, back, rfl, hproven⟩
    · by_cases hrecord : ∃ q, request = .recordImplementations q
      · obtain ⟨q, rfl⟩ := hrecord
        refine (Registry.mem_listed_recordImplementations hmid).imp_right fun hproven => ?_
        exact ⟨[], q, rest, rfl, hproven⟩
      · rw [perform_listed hw.registry hb hn.1 fun q heq => hrecord ⟨q, heq⟩] at hmid
        exact .inl hmid
    · exact .inr ⟨request :: front, q, back, rfl, hproven⟩

theorem new_listed (currentDir : Option String) (locator : Locator) (parser : SourceParser)
    (ty : TypeId) : (Environment.new currentDir locator parser).registry.graph.listed ty = [] := by
  have hall : ∀ data ∈ Registry.new.graph.types.toList, data.kind.interfaces = [] := by
    decide +kernel
  change Registry.new.graph.listed ty = []
  cases hd : Registry.new.graph.typeAt? ty with
  | none => rw [TypeGraph.listed, TypeGraph.kind?, hd, Option.map_none, Option.elim_none]
  | some data =>
    rw [TypeGraph.listed_of_typeAt? hd]
    exact hall data (Array.mem_toList_iff.mpr (Array.mem_of_getElem? hd))

/-- In every session, an interface that a struct lists was implemented when one of the recordings
listed it, and it is implemented now if and only if no method that it asks for gave way to one of
another signature since then. -/
theorem listed_interfaces_hold_unless_overruled (currentDir : Option String) (locator : Locator)
    (parser : SourceParser) {requests : List Request}
    (h : (Environment.new currentDir locator parser).NamesAll requests) {ty iface : TypeId}
    (hl : iface ∈ ((Environment.new currentDir locator parser).performAll
      requests).registry.graph.listed ty) :
    ∃ front q back, requests = front ++ .recordImplementations q :: back ∧
      let before := ((Environment.new currentDir locator parser).performAll front).registry
      let now := ((Environment.new currentDir locator parser).performAll requests).registry
      before.Proves q ty iface ∧
        (now.graph.implements ty iface = true ↔ ¬before.Overruled now ty iface) := by
  have hw := new_wellFormed currentDir locator parser
  rcases mem_listed_performAll hw (new_builtin_ne_none currentDir locator parser) h hl with
    hnew | ⟨front, q, back, rfl, hproven⟩
  · rw [new_listed] at hnew
    cases hnew
  · refine ⟨front, q, back, rfl, hproven, ?_⟩
    obtain ⟨hfront, hback⟩ := namesAll_append.mp h
    obtain ⟨_, -, -, -, himplements⟩ := hproven
    have hnew : (Environment.new currentDir locator parser).registry.Sound := Registry.new_sound
    have hsound := (performAll_moves hnew hfront).sound hnew
    obtain ⟨actions, hv, hrun⟩ := performAll_moves hsound hback
    have hupheld := Registry.run_upholds hsound hv
    rw [hrun, ← performAll_append] at hupheld
    exact Registry.implements_iff_not_overruled (wellFormed_performAll hw hfront).registry hupheld
      himplements

/-- `I` is recorded on `S`, the file is read once more, and `I` is recorded again. -/
def readTwice : List Request :=
  satisfiedOnce ++
    [.recordImplementations ⟨1⟩, .analyzeFile 0 ⟨1⟩ methodFirst, .recordImplementations ⟨1⟩]

theorem readTwice_holds :
    let now := ((Environment.new none noPackages noFiles).performAll readTwice).registry
    (Environment.new none noPackages noFiles).NamesAll readTwice ∧
      (⟨26⟩ : TypeId) ∈ now.graph.listed ⟨24⟩ ∧
      ∃ front q back, readTwice = front ++ .recordImplementations q :: back ∧
        let before := ((Environment.new none noPackages noFiles).performAll front).registry
        before.Proves q ⟨24⟩ ⟨26⟩ ∧ ¬before.Overruled now ⟨24⟩ ⟨26⟩ := by
  intro now
  have hn : (Environment.new none noPackages noFiles).NamesAll readTwice := by decide +kernel
  have hl : (⟨26⟩ : TypeId) ∈ now.graph.listed ⟨24⟩ := by decide +kernel
  have himplements : now.graph.implements ⟨24⟩ ⟨26⟩ = true := by decide +kernel
  obtain ⟨front, q, back, hsplit, hproven, hiff⟩ :=
    listed_interfaces_hold_unless_overruled none noPackages noFiles hn hl
  exact ⟨hn, hl, front, q, back, hsplit, hproven, hiff.mp himplements⟩

def methodOverruled : Source.SourceFile where
  packageName := "p"
  doc := none
  decls := [.func { doc := none, name := "M", typeParams := [],
                    receiver := some ⟨["s"], fun _ => .named "S" [], none, none⟩,
                    params := [], results := [] }]

/-- `I` is recorded on `S`, and recorded again after `S` has lost its method. -/
def recordedTwice : List Request :=
  satisfiedOnce ++
    [.recordImplementations ⟨1⟩, .analyzeFile 0 ⟨1⟩ methodOverruled, .recordImplementations ⟨1⟩]

/-- `S` and `I` are the only struct and interface of the package. -/
theorem record_outlives_its_proof :
    let env := (Environment.new none noPackages noFiles).performAll recordedTwice
    (Environment.new none noPackages noFiles).NamesAll recordedTwice ∧
      (env.registry.package? ⟨1⟩).map (fun p => (p.structs.ids, p.interfaces.ids)) =
        some ([⟨24⟩], [⟨26⟩]) ∧
      env.registry.graph.listed ⟨24⟩ = [⟨26⟩] ∧
      env.registry.graph.implements ⟨24⟩ ⟨26⟩ = false := by
  decide +kernel

end GoPackages.Environment
