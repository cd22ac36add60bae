import GoPackages.Locator.SourceRoots
import GoPackages.Proofs.StructTag.Grammar
import Mathlib.Data.List.Infix

/-!
# Paths as lists of components

A path begins at the root of the file system, at the current directory, or nowhere in particular,
and goes on with names. Joining two paths appends their components, whether or not the first one
ends in a slash, and stripping takes components off. Both work on text, and keep the text of what
stands below a directory.
-/

namespace GoPackages

namespace Text

variable {sep : Char}

theorem splitAt_append_separator (a b : List Char) :
    splitAt sep (a ++ sep :: b) = splitAt sep a ++ splitAt sep b := by
  induction a with
  | nil => simp [splitAt]
  | cons c a ih =>
    obtain ⟨piece, pieces, hp⟩ := List.exists_cons_of_ne_nil (splitAt_ne_nil sep a)
    rw [List.cons_append, splitAt, splitAt, ih, hp]
    by_cases hc : c = sep
    · simp [hc]
    · simp [hc]

theorem splitAt_of_not_mem {cs : List Char} (h : sep ∉ cs) : splitAt sep cs = [cs] :=
  splitAt_eq_iff.mpr ⟨by simp, by simpa using h, by simp⟩

theorem exists_mem_splitAt {c : Char} {cs : List Char} (hc : c ∈ cs) (hsep : c ≠ sep) :
    ∃ piece ∈ splitAt sep cs, c ∈ piece := by
  induction cs with
  | nil => cases hc
  | cons d cs ih =>
    obtain ⟨piece, pieces, hp⟩ := List.exists_cons_of_ne_nil (splitAt_ne_nil sep cs)
    rw [hp] at ih
    rw [splitAt, hp]
    by_cases hd : d = sep <;> rcases List.mem_cons.mp hc with rfl | hlater
    · exact absurd hd hsep
    · simpa [hd] using ih hlater
    · simp [hd]
    · simp only [hd, if_false, List.mem_cons, exists_eq_or_imp] at ih ⊢
      exact (ih hlater).imp_left .inr

end Text

namespace Path

inductive Component where
  | root
  | here
  | name (chars : List Char)
  deriving DecidableEq, Repr

def Anchor.components : Anchor → List Component
  | .root => [.root]
  | .here => [.here]
  | .none => []

def components (path : String) : List Component :=
  (pieces path).1.components ++ (names path).map .name

theorem name_injective : Function.Injective Component.name := fun _ _ h => Component.name.inj h

theorem components_prefix_iff {base path : String} : components base <+: components path ↔
    (pieces base).1 = .none ∧ names base = [] ∨
      (pieces base).1 = (pieces path).1 ∧ names base <+: names path := by
  unfold components
  rcases (pieces base).1 <;> rcases (pieces path).1 <;> rcases names base <;> rcases names path <;>
    simp [Anchor.components, List.prefix_map_iff_of_injective, name_injective]

theorem components_eq_iff {a b : String} :
    components a = components b ↔ (pieces a).1 = (pieces b).1 ∧ names a = names b := by
  unfold components
  rcases (pieces a).1 <;> rcases (pieces b).1 <;> rcases names a <;> rcases names b <;>
    simp [Anchor.components, List.map_inj_right name_injective]

theorem pieces_slash {path : String} {cs : List Char} (h : path.toList = '/' :: cs) :
    pieces path = (.root, Text.splitAt '/' cs) := by
  rw [pieces, h]
  rfl

theorem pieces_dot {path : String} (h : path.toList = ['.']) : pieces path = (.here, [[]]) := by
  rw [pieces, h]
  rfl

theorem pieces_dot_slash {path : String} {cs : List Char} (h : path.toList = '.' :: '/' :: cs) :
    pieces path = (.here, [] :: Text.splitAt '/' cs) := by
  rw [pieces, h]
  rfl

theorem pieces_other {path : String} (hslash : ∀ cs, path.toList ≠ '/' :: cs)
    (hdot : path.toList ≠ ['.']) (hboth : ∀ cs, path.toList ≠ '.' :: '/' :: cs) :
    pieces path = (.none, Text.splitAt '/' path.toList) := by
  unfold pieces
  split
  next cs h => exact absurd h (hslash cs)
  next h => exact absurd h hdot
  next cs h => exact absurd h (hboth cs)
  next => rfl

/-- A path of names alone, one or more of them, with single slashes between. Backslashes are left
out, as they are slashes elsewhere. -/
def OrdinaryPath (path : String) : Prop :=
  ∀ piece ∈ Text.splitAt '/' path.toList,
    isVoid piece = false ∧ piece ≠ ['.', '.'] ∧ '\\' ∉ piece

instance (path : String) : Decidable (OrdinaryPath path) :=
  inferInstanceAs (Decidable (∀ _ ∈ _, _))

namespace OrdinaryPath

variable {path : String} (h : OrdinaryPath path)
include h

theorem front {a : List Char} (ha : '/' ∉ a)
    (e : path.toList = a ∨ ∃ cs, path.toList = a ++ '/' :: cs) :
    isVoid a = false ∧ a ≠ ['.', '.'] := by
  have hpiece : Text.splitAt '/' a = [a] := Text.splitAt_of_not_mem ha
  have hmem : a ∈ Text.splitAt '/' path.toList := by
    rcases e with e | ⟨cs, e⟩
    · simp [e, hpiece]
    · simp [e, Text.splitAt_append_separator, hpiece]
  obtain ⟨hvoid, hup, -⟩ := h a hmem
  exact ⟨hvoid, hup⟩

theorem pieces_eq : pieces path = (.none, Text.splitAt '/' path.toList) := by
  apply pieces_other
  · intro cs e
    exact absurd (h.front (a := []) (by simp) (.inr ⟨cs, e⟩)).1 (by decide)
  · intro e
    exact absurd (h.front (a := ['.']) (by decide) (.inl e)).1 (by decide)
  · intro cs e
    exact absurd (h.front (a := ['.']) (by decide) (.inr ⟨cs, e⟩)).1 (by decide)

theorem not_local : isLocalImport path = false := by
  rw [Bool.eq_false_iff]
  intro hlocal
  simp only [isLocalImport, Bool.or_eq_true, beq_iff_eq, List.isPrefixOf_iff_prefix] at hlocal
  rcases hlocal with ((rfl | rfl) | ⟨cs, e⟩) | ⟨cs, e⟩
  · exact absurd h (by decide)
  · exact absurd h (by decide)
  · exact absurd (h.front (a := ['.']) (by decide) (.inr ⟨cs, e.symm⟩)).1 (by decide)
  · exact absurd rfl (h.front (a := ['.', '.']) (by decide) (.inr ⟨cs, e.symm⟩)).2

theorem toList_ne_nil : path.toList ≠ [] := by
  intro e
  exact absurd (h.front (a := []) (by simp) (.inl e)).1 (by decide)

theorem not_slash (cs : List Char) : path.toList ≠ '/' :: cs := by
  intro e
  exact absurd (h.front (a := []) (by simp) (.inr ⟨cs, e⟩)).1 (by decide)

theorem no_backslash : '\\' ∉ path.toList := by
  intro hc
  obtain ⟨piece, hpiece, hmem⟩ := Text.exists_mem_splitAt hc (by decide : '\\' ≠ '/')
  exact (h piece hpiece).2.2 hmem

theorem filter_pieces : (Text.splitAt '/' path.toList).filter (fun p => !isVoid p) =
    Text.splitAt '/' path.toList := by
  rw [List.filter_eq_self]
  intro piece hpiece
  rw [(h piece hpiece).1]
  rfl

end OrdinaryPath

/-- The characters of two paths with a slash between them where there is none. -/
def glue (cs rest : List Char) : List Char :=
  if cs = [] ∨ cs.getLast? = some '/' then cs ++ rest else cs ++ '/' :: rest

theorem toList_join {rest : String} (h : ∀ cs, rest.toList ≠ '/' :: cs) (base : String) :
    (join base rest).toList = glue base.toList rest.toList := by
  have hrelative : isAbsolute rest = false := by
    rw [isAbsolute, beq_eq_false_iff_ne]
    intro e
    obtain ⟨cs, hcs⟩ := List.head?_eq_some_iff.mp e
    exact h cs hcs
  rw [join, glue, if_neg (Bool.eq_false_iff.mp hrelative)]
  by_cases hend : base.toList = [] ∨ base.toList.getLast? = some '/'
  · rw [if_pos hend, if_pos]
    · exact String.toList_append
    · simpa [String.toList_eq_nil_iff] using hend
  · rw [if_neg hend, if_neg]
    · simp [String.toList_append]
    · simpa [String.toList_eq_nil_iff] using hend

theorem exists_glue (cs : List Char) {rest : List Char} (h : rest ≠ []) :
    ∃ tail, tail ≠ [] ∧ glue cs rest = cs ++ tail := by
  unfold glue
  split
  · exact ⟨rest, h, rfl⟩
  · exact ⟨'/' :: rest, List.cons_ne_nil _ _, rfl⟩

theorem glue_slash (cs rest : List Char) : glue ('/' :: cs) rest = '/' :: glue cs rest := by
  cases cs with
  | nil => rfl
  | cons c cs => simp only [glue, List.getLast?_cons_cons]; split <;> simp_all

theorem glue_dot_slash (cs rest : List Char) :
    glue ('.' :: '/' :: cs) rest = '.' :: '/' :: glue cs rest := by
  rw [← glue_slash]
  simp only [glue, List.getLast?_cons_cons]
  split <;> simp_all

/-- The pieces of the second path stand as they are behind those of the first, of which a void one
at the end may be gone. -/
theorem splitAt_glue (cs rest : List Char) : ∃ before,
    Text.splitAt '/' (glue cs rest) = before ++ Text.splitAt '/' rest ∧
      (before.filter fun p => !isVoid p) = (Text.splitAt '/' cs).filter (fun p => !isVoid p) ∧
        (cs = [] → before = []) := by
  by_cases hnil : cs = []
  · subst hnil
    exact ⟨[], rfl, rfl, fun _ => rfl⟩
  by_cases hend : cs.getLast? = some '/'
  · obtain ⟨front, rfl⟩ := List.getLast?_eq_some_iff.mp hend
    refine ⟨Text.splitAt '/' front, ?_, ?_, fun h => absurd h hnil⟩
    · rw [glue, if_pos (.inr hend), List.append_assoc]
      exact Text.splitAt_append_separator front rest
    · rw [Text.splitAt_append_separator, List.filter_append]
      simp [Text.splitAt, isVoid]
  · refine ⟨Text.splitAt '/' cs, ?_, rfl, fun h => absurd h hnil⟩
    rw [glue, if_neg (not_or.mpr ⟨hnil, hend⟩)]
    exact Text.splitAt_append_separator cs rest

section Join

variable {path : String} (h : OrdinaryPath path)
include h

theorem pieces_join_other {base : String} (hslash : ∀ cs, base.toList ≠ '/' :: cs)
    (hdot : base.toList ≠ ['.']) (hboth : ∀ cs, base.toList ≠ '.' :: '/' :: cs) :
    pieces (join base path) = (.none, Text.splitAt '/' (join base path).toList) := by
  have hjoin := toList_join h.not_slash base
  cases hbase : base.toList with
  | nil =>
    have hsame : join base path = path := String.toList_inj.mp (by rw [hjoin, hbase]; rfl)
    rw [hsame]
    exact h.pieces_eq
  | cons c cs =>
    rw [hbase] at hslash hdot hboth hjoin
    obtain ⟨tail, htail, hglue⟩ := exists_glue (c :: cs) h.toList_ne_nil
    rw [hglue] at hjoin
    apply pieces_other
    · intro cs' e
      obtain ⟨rfl, -⟩ := List.cons.inj (hjoin.symm.trans e)
      exact hslash cs rfl
    · intro e
      obtain ⟨rfl, hnil⟩ := List.cons.inj (hjoin.symm.trans e)
      exact htail (List.append_eq_nil_iff.mp hnil).2
    · intro cs' e
      obtain ⟨rfl, e⟩ := List.cons.inj (hjoin.symm.trans e)
      cases cs with
      | nil => exact hdot rfl
      | cons d cs =>
        obtain ⟨rfl, -⟩ := List.cons.inj e
        exact hboth cs rfl

theorem pieces_join (base : String) : ∃ before,
    pieces (join base path) = ((pieces base).1, before ++ Text.splitAt '/' path.toList) ∧
      (before.filter fun p => !isVoid p) = names base ∧ (base = "" → before = []) := by
  have hjoin := toList_join h.not_slash base
  by_cases hslash : ∃ cs, base.toList = '/' :: cs
  · obtain ⟨cs, hcs⟩ := hslash
    obtain ⟨before, hsplit, hnames, hnil⟩ := splitAt_glue cs path.toList
    rw [hcs, glue_slash] at hjoin
    refine ⟨before, ?_, ?_, ?_⟩
    · rw [pieces_slash hjoin, pieces_slash hcs, hsplit]
    · rw [names, pieces_slash hcs, hnames]
    · rintro rfl
      simp at hcs
  by_cases hdot : base.toList = ['.']
  · have hsplit : (join base path).toList = '.' :: '/' :: path.toList := by
      rw [hjoin, hdot]
      rfl
    refine ⟨[[]], ?_, ?_, ?_⟩
    · rw [pieces_dot_slash hsplit, pieces_dot hdot]
      rfl
    · rw [names, pieces_dot hdot]
    · rintro rfl
      simp at hdot
  by_cases hboth : ∃ cs, base.toList = '.' :: '/' :: cs
  · obtain ⟨cs, hcs⟩ := hboth
    obtain ⟨before, hsplit, hnames, hnil⟩ := splitAt_glue cs path.toList
    rw [hcs, glue_dot_slash] at hjoin
    refine ⟨[] :: before, ?_, ?_, ?_⟩
    · rw [pieces_dot_slash hjoin, pieces_dot_slash hcs, hsplit]
      rfl
    · rw [names, pieces_dot_slash hcs]
      exact hnames
    · rintro rfl
      simp at hcs
  · push Not at hslash hboth
    obtain ⟨before, hsplit, hnames, hnil⟩ := splitAt_glue base.toList path.toList
    have hbase := pieces_other hslash hdot hboth
    refine ⟨before, ?_, ?_, ?_⟩
    · rw [hbase, ← hsplit, ← hjoin]
      exact pieces_join_other h hslash hdot hboth
    · rw [names, hbase, hnames]
    · rintro rfl
      exact hnil rfl

theorem components_join (base : String) : components (join base path) =
    components base ++ (Text.splitAt '/' path.toList).map .name := by
  obtain ⟨before, hpieces, hnames, -⟩ := pieces_join h base
  rw [components, names, hpieces, List.filter_append, hnames, h.filter_pieces, List.map_append,
    ← List.append_assoc]
  rfl

end Join

theorem prefix_of_dropNames? {ps ns rest : List (List Char)} (h : dropNames? ps ns = some rest) :
    ns <+: ps.filter fun p => !isVoid p := by
  fun_induction dropNames? ps ns with
  | case1 ps => exact List.nil_prefix
  | case2 => cases h
  | case3 p ps name names hvoid ih =>
    rw [List.filter_cons_of_neg (by simpa using hvoid)]
    exact ih h
  | case4 ps name names hvoid ih =>
    rw [List.filter_cons_of_pos (by simpa using hvoid)]
    exact List.cons_prefix_cons.mpr ⟨rfl, ih h⟩
  | case5 => cases h

theorem dropNames?_append (ps qs : List (List Char)) : ∃ voids, (∀ p ∈ voids, isVoid p) ∧
    dropNames? (ps ++ qs) (ps.filter fun p => !isVoid p) = some (voids ++ qs) := by
  induction ps with
  | nil => exact ⟨[], List.forall_mem_nil _, by simp [dropNames?]⟩
  | cons p ps ih =>
    obtain ⟨voids, hvoids, hdrop⟩ := ih
    by_cases hvoid : isVoid p
    · rw [List.filter_cons_of_neg (by simpa using hvoid)]
      cases hnames : ps.filter (fun p => !isVoid p) with
      | nil =>
        refine ⟨p :: ps, ?_, by simp [dropNames?]⟩
        rw [List.filter_eq_nil_iff] at hnames
        exact List.forall_mem_cons.mpr ⟨hvoid, fun q hq => by simpa using hnames q hq⟩
      | cons name names =>
        rw [hnames] at hdrop
        refine ⟨voids, hvoids, ?_⟩
        rw [List.cons_append, dropNames?, if_pos hvoid]
        exact hdrop
    · rw [List.filter_cons_of_pos (by simpa using hvoid)]
      refine ⟨voids, hvoids, ?_⟩
      rw [List.cons_append, dropNames?, if_neg hvoid, if_pos rfl]
      exact hdrop

theorem prefix_of_stripPrefix? {base path rest : String} (h : stripPrefix? base path = some rest) :
    components base <+: components path := by
  rw [components_prefix_iff]
  unfold stripPrefix? at h
  dsimp only at h
  split at h
  next hanchor hnames => exact .inl ⟨hanchor, hnames⟩
  next =>
    split at h
    next hanchor =>
      obtain ⟨rest, hrest, -⟩ := Option.map_eq_some_iff.mp h
      exact .inr ⟨hanchor.symm, prefix_of_dropNames? hrest⟩
    next => cases h

theorem dropWhile_eq_self {ps : List (List Char)} (h : ∀ p ∈ ps, isVoid p = false) :
    ps.dropWhile isVoid = ps := by
  cases ps with
  | nil => rfl
  | cons p ps => exact List.dropWhile_cons_of_neg (Bool.eq_false_iff.mp (h p List.mem_cons_self))

theorem trimEnd_splitAt {path : String} (h : OrdinaryPath path) :
    trimEnd (Text.splitAt '/' path.toList) = path := by
  have hkept : dropTrailingVoid (Text.splitAt '/' path.toList) = Text.splitAt '/' path.toList := by
    rw [dropTrailingVoid, dropWhile_eq_self, List.reverse_reverse]
    intro p hp
    exact (h p (List.mem_reverse.mp hp)).1
  rw [trimEnd, hkept, Text.joinWith_splitAt, String.ofList_toList]

theorem eq_empty_of_no_components {base : String} (hanchor : (pieces base).1 = .none)
    (hnames : names base = []) : base = "" := by
  have hslash : ∀ cs, base.toList ≠ '/' :: cs := fun cs e => by
    simp [pieces_slash e] at hanchor
  have hdot : base.toList ≠ ['.'] := fun e => by simp [pieces_dot e] at hanchor
  have hboth : ∀ cs, base.toList ≠ '.' :: '/' :: cs := fun cs e => by
    simp [pieces_dot_slash e] at hanchor
  rw [names, pieces_other hslash hdot hboth, List.filter_eq_nil_iff] at hnames
  have hfirst : ∀ a ∈ Text.splitAt '/' base.toList, a = [] ∨ a = ['.'] := by
    intro a ha
    have hvoid := hnames a ha
    by_cases hempty : a = []
    · exact .inl hempty
    · exact .inr (by simpa [isVoid, hempty] using hvoid)
  by_cases hcut : '/' ∈ base.toList
  · obtain ⟨a, rest, e, ha⟩ := List.eq_append_cons_of_mem hcut
    have hmem : a ∈ Text.splitAt '/' base.toList := by
      rw [e, Text.splitAt_append_separator, Text.splitAt_of_not_mem ha]
      exact List.mem_cons_self
    rcases hfirst a hmem with rfl | rfl
    · exact absurd e (hslash rest)
    · exact absurd e (hboth rest)
  · have hmem : base.toList ∈ Text.splitAt '/' base.toList := by
      rw [Text.splitAt_of_not_mem hcut]
      exact List.mem_cons_self
    rcases hfirst _ hmem with e | e
    · exact String.toList_eq_nil_iff.mp e
    · exact absurd e hdot

/-- What is left of a path below a directory is the path, whichever way the directory is
written. -/
theorem stripPrefix?_join {path : String} (h : OrdinaryPath path) {base other : String}
    (hsame : components other = components base) :
    stripPrefix? other (join base path) = some path := by
  obtain ⟨before, hpieces, hnames, hnil⟩ := pieces_join h base
  obtain ⟨hanchor, hothers⟩ := components_eq_iff.mp hsame
  unfold stripPrefix?
  dsimp only
  split
  next hnone hno =>
    have hempty := eq_empty_of_no_components (hanchor ▸ hnone) (hothers ▸ hno)
    rw [hpieces, ← hanchor, hnone, hnil hempty, List.nil_append, trimEnd_splitAt h]
    simp [Anchor.text]
  next =>
    obtain ⟨voids, hvoids, hdrop⟩ := dropNames?_append before (Text.splitAt '/' path.toList)
    rw [hpieces, if_pos hanchor.symm, hothers, ← hnames, hdrop, Option.map_some,
      List.dropWhile_append_of_pos hvoids, dropWhile_eq_self fun p hp => (h p hp).1,
      trimEnd_splitAt h]

end Path

end GoPackages
