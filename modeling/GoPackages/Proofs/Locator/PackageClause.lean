import GoPackages.Locator.PackageClause
import Mathlib.Data.List.Infix
import Mathlib.Data.List.TakeWhile

/-!
# The package clause as a grammar

Trivia are white space, line comments through their line break and block comments through their
first end. A text is a package clause if it has the keyword behind some trivia or none, and a name
behind some more. The name of a package is found in these texts and in no others, whatever the
trivia are.
-/
namespace GoPackages.PackageClause

theorem afterBlock?_eq_some_iff {cs rest : List Char} : afterBlock? cs = some rest ↔
    ∃ body, ¬['*', '/'] <:+: body ++ ['*'] ∧ cs = body ++ '*' :: '/' :: rest := by
  constructor
  · intro h
    fun_induction afterBlock? cs with
    | case1 => cases h
    | case2 r =>
      obtain rfl := Option.some.inj h
      exact ⟨[], by decide, rfl⟩
    | case3 c r hstart ih =>
      obtain ⟨body, hbody, rfl⟩ := ih h
      refine ⟨c :: body, ?_, rfl⟩
      rw [List.cons_append, List.infix_cons_iff]
      -- an end at the very front would have been taken, as in the second equation
      rintro (hfront | hlater)
      · cases body with
        | nil => simp at hfront
        | cons d body =>
          simp only [List.cons_append, List.cons_prefix_cons, List.nil_prefix, and_true] at hfront
          obtain ⟨rfl, rfl⟩ := hfront
          exact hstart _ rfl rfl
      · exact hbody hlater
  · rintro ⟨body, hbody, rfl⟩
    induction body with
    | nil => rfl
    | cons c body ih =>
      rw [List.cons_append, List.infix_cons_iff, not_or] at hbody
      rw [List.cons_append, afterBlock?]
      · exact ih hbody.2
      · rintro r rfl hr
        apply hbody.1
        cases body with
        | nil => simp at hr
        | cons d body =>
          obtain ⟨rfl, -⟩ := List.cons.inj hr
          simp

theorem skipTrivia_blank {c : Char} (h : Unicode.isBlank c) (cs : List Char) :
    skipTrivia (c :: cs) = skipTrivia cs := by
  rw [skipTrivia, skipTrivia, List.dropWhile_cons_of_pos h]

theorem skipTrivia_line (cs : List Char) :
    skipTrivia ('/' :: '/' :: cs) = skipTrivia (cs.dropWhile (· != '\n')) := by
  rw [skipTrivia]
  rfl

theorem skipTrivia_block (cs : List Char) :
    skipTrivia ('/' :: '*' :: cs) = ((afterBlock? cs).map skipTrivia).getD [] := by
  rw [skipTrivia]
  split
  next h => cases (List.cons.inj h).2
  next rest h =>
    obtain rfl : cs = rest := (List.cons.inj (List.cons.inj h).2).2
    split
    next hafter => rw [hafter]; rfl
    next hafter => rw [hafter]; rfl
  next hline hblock => exact absurd rfl (hblock cs)

theorem skipTrivia_of_stop {cs : List Char} (hblank : ∀ c ∈ cs.head?, Unicode.isBlank c = false)
    (hcomment : ∀ rest, cs ≠ '/' :: '/' :: rest ∧ cs ≠ '/' :: '*' :: rest) :
    skipTrivia cs = cs := by
  have hdrop : cs.dropWhile Unicode.isBlank = cs := by
    cases cs with
    | nil => rfl
    | cons c cs => exact List.dropWhile_cons_of_neg (by simpa using hblank c rfl)
  rw [skipTrivia]
  split
  next rest h => exact absurd (hdrop.symm.trans h) (hcomment rest).1
  next rest h => exact absurd (hdrop.symm.trans h) (hcomment rest).2
  next => exact hdrop

inductive Trivium where
  | blank (char : Char) (is_blank : Unicode.isBlank char)
  | lineComment (body : List Char) (one_line : '\n' ∉ body)
  | blockComment (body : List Char) (unclosed : ¬['*', '/'] <:+: body ++ ['*'])

def Trivium.written : Trivium → List Char
  | blank c _ => [c]
  | lineComment body _ => '/' :: '/' :: body ++ ['\n']
  | blockComment body _ => '/' :: '*' :: body ++ ['*', '/']

def written (trivia : List Trivium) : List Char := trivia.flatMap Trivium.written

theorem isBlank_newline : Unicode.isBlank '\n' := by decide

theorem skipTrivia_trivium (t : Trivium) (cs : List Char) :
    skipTrivia (t.written ++ cs) = skipTrivia cs := by
  cases t with
  | blank c h => exact skipTrivia_blank h cs
  | lineComment body h =>
    have hdrop : (body ++ '\n' :: cs).dropWhile (· != '\n') = '\n' :: cs := by
      rw [List.dropWhile_append_of_pos]
      · rfl
      · intro c hc
        exact bne_iff_ne.mpr fun e => h (e ▸ hc)
    simp only [Trivium.written, List.cons_append, List.append_assoc, List.nil_append]
    rw [skipTrivia_line, hdrop]
    exact skipTrivia_blank isBlank_newline cs
  | blockComment body h =>
    have hafter : afterBlock? (body ++ '*' :: '/' :: cs) = some cs :=
      afterBlock?_eq_some_iff.mpr ⟨body, h, rfl⟩
    simp only [Trivium.written, List.cons_append, List.append_assoc, List.nil_append]
    rw [skipTrivia_block, hafter]
    rfl

theorem skipTrivia_written (trivia : List Trivium) (cs : List Char) :
    skipTrivia (written trivia ++ cs) = skipTrivia cs := by
  induction trivia with
  | nil => rfl
  | cons t trivia ih =>
    rw [written, List.flatMap_cons, List.append_assoc, skipTrivia_trivium]
    exact ih

/-- A text begins with some trivia or with none, or is the beginning of a comment without end. -/
theorem skipTrivia_cases (cs : List Char) :
    skipTrivia cs = [] ∨ skipTrivia cs = cs ∨
      ∃ (t : Trivium) (rest : List Char), cs = t.written ++ rest := by
  by_cases hblank : ∃ c rest, cs = c :: rest ∧ Unicode.isBlank c
  · obtain ⟨c, rest, rfl, hc⟩ := hblank
    exact .inr (.inr ⟨.blank c hc, rest, rfl⟩)
  by_cases hline : ∃ rest, cs = '/' :: '/' :: rest
  · obtain ⟨rest, rfl⟩ := hline
    by_cases hend : '\n' ∈ rest
    · obtain ⟨body, after, rfl, hbody⟩ := List.eq_append_cons_of_mem hend
      exact .inr (.inr ⟨.lineComment body hbody, after, by simp [Trivium.written]⟩)
    · left
      have hdrop : rest.dropWhile (· != '\n') = [] := by
        rw [List.dropWhile_eq_nil_iff]
        intro c hc
        exact bne_iff_ne.mpr fun e => hend (e ▸ hc)
      rw [skipTrivia_line, hdrop]
      exact skipTrivia_of_stop nofun (by simp)
  by_cases hblock : ∃ rest, cs = '/' :: '*' :: rest
  · obtain ⟨rest, rfl⟩ := hblock
    cases hafter : afterBlock? rest with
    | none =>
      left
      rw [skipTrivia_block, hafter]
      rfl
    | some after =>
      obtain ⟨body, hbody, rfl⟩ := afterBlock?_eq_some_iff.mp hafter
      exact .inr (.inr ⟨.blockComment body hbody, after, by simp [Trivium.written]⟩)
  right; left
  apply skipTrivia_of_stop
  · intro c hc
    obtain ⟨rest, rfl⟩ := List.head?_eq_some_iff.mp hc
    exact Bool.eq_false_iff.mpr fun h => hblank ⟨c, rest, rfl, h⟩
  · intro rest
    exact ⟨fun h => hline ⟨rest, h⟩, fun h => hblock ⟨rest, h⟩⟩

theorem Trivium.written_ne_nil (t : Trivium) : t.written ≠ [] := by
  cases t <;> simp [Trivium.written]

/-- What is skipped is trivia, unless all is. The rest that is skipped from is shorter after each
piece, but no tail of a fixed length, so the induction is on the length. -/
theorem exists_trivia (cs : List Char) (h : skipTrivia cs ≠ []) :
    ∃ trivia, cs = written trivia ++ skipTrivia cs := by
  induction hn : cs.length using Nat.strong_induction_on generalizing cs with
  | _ n ih =>
    rcases skipTrivia_cases cs with hnone | hall | ⟨t, rest, rfl⟩
    · exact absurd hnone h
    · exact ⟨[], hall.symm⟩
    · rw [skipTrivia_trivium] at h ⊢
      have hlt : rest.length < n := by
        have := List.length_pos_iff.mpr t.written_ne_nil
        rw [List.length_append] at hn
        omega
      obtain ⟨trivia, htrivia⟩ := ih rest.length hlt rest h rfl
      refine ⟨t :: trivia, ?_⟩
      rw [written, List.flatMap_cons, List.append_assoc]
      exact congrArg (t.written ++ ·) htrivia

theorem written_eq_nil_iff {trivia : List Trivium} : written trivia = [] ↔ trivia = [] := by
  constructor
  · intro h
    cases trivia with
    | nil => rfl
    | cons t trivia =>
      rw [written, List.flatMap_cons] at h
      exact absurd (List.append_eq_nil_iff.mp h).1 t.written_ne_nil
  · rintro rfl
    rfl

def blanks : List Nat :=
  [9, 10, 11, 12, 13, 0x20, 0x85, 0xA0, 0x1680, 0x2000, 0x2001, 0x2002, 0x2003, 0x2004, 0x2005,
    0x2006, 0x2007, 0x2008, 0x2009, 0x200A, 0x2028, 0x2029, 0x202F, 0x205F, 0x3000]

theorem mem_blanks {c : Char} (h : Unicode.isBlank c) : c.toNat ∈ blanks := by
  simp only [Unicode.isBlank, Bool.or_eq_true, Bool.and_eq_true, decide_eq_true_eq,
    beq_iff_eq] at h
  simp only [blanks, List.mem_cons, List.not_mem_nil, or_false]
  omega

theorem not_isBlank_of_isNameChar {c : Char} (h : isNameChar c) : Unicode.isBlank c = false := by
  have hnone : ∀ n ∈ blanks,
      Unicode.inRanges n Unicode.alphanumericRanges = false ∧ n ≠ '_'.toNat := by
    decide +kernel
  rw [Bool.eq_false_iff]
  intro hblank
  obtain ⟨halpha, hunder⟩ := hnone _ (mem_blanks hblank)
  rw [isNameChar, Bool.or_eq_true, beq_iff_eq] at h
  rcases h with h | rfl
  · exact Bool.eq_false_iff.mp halpha h
  · exact hunder rfl

theorem slash_not_isNameChar : isNameChar '/' = false := by decide +kernel

theorem skipTrivia_of_isNameChar {c : Char} (h : isNameChar c) (cs : List Char) :
    skipTrivia (c :: cs) = c :: cs := by
  apply skipTrivia_of_stop
  · rintro _ ⟨⟩
    exact not_isBlank_of_isNameChar h
  · intro rest
    constructor
    all_goals
      intro e
      obtain ⟨rfl, -⟩ := List.cons.inj e
      exact Bool.eq_false_iff.mp slash_not_isNameChar h

structure LongestName (name : String) (cs : List Char) : Prop where
  nonempty : name ≠ ""
  run : ∃ after, cs = name.toList ++ after ∧ (∀ c ∈ name.toList, isNameChar c) ∧
    ∀ c ∈ after.head?, isNameChar c = false

theorem LongestName.takeWhile_eq {name : String} {cs : List Char} (h : LongestName name cs) :
    cs.takeWhile isNameChar = name.toList := by
  obtain ⟨after, rfl, hname, hafter⟩ := h.run
  rw [List.takeWhile_append_of_pos hname]
  cases after with
  | nil => simp
  | cons c after =>
    rw [List.takeWhile_cons_of_neg, List.append_nil]
    simpa using hafter c rfl

theorem longestName_takeWhile {cs : List Char} (h : cs.takeWhile isNameChar ≠ []) :
    LongestName (String.ofList (cs.takeWhile isNameChar)) cs := by
  constructor
  · simpa using h
  · refine ⟨cs.dropWhile isNameChar, by simp, ?_, ?_⟩
    · intro c hc
      rw [String.toList_ofList] at hc
      exact List.mem_takeWhile_imp hc
    · intro c hc
      have := List.head?_dropWhile_not isNameChar cs
      simp_all

theorem LongestName.skipTrivia_eq {name : String} {cs : List Char} (h : LongestName name cs) :
    skipTrivia cs = cs := by
  obtain ⟨after, rfl, hname, -⟩ := h.run
  cases hcs : name.toList with
  | nil => exact absurd (String.toList_eq_nil_iff.mp hcs) h.nonempty
  | cons c rest =>
    rw [List.cons_append]
    exact skipTrivia_of_isNameChar (hname c (hcs ▸ List.mem_cons_self)) _

theorem afterKeyword?_eq_some_iff {cs rest : List Char} :
    afterKeyword? cs = some rest ↔ cs = "package".toList ++ rest := by
  unfold afterKeyword?
  constructor
  · intro h
    dsimp only at h
    split at h
    next hprefix =>
      obtain rfl := Option.some.inj h
      exact List.prefix_iff_eq_append.mp (List.isPrefixOf_iff_prefix.mp hprefix) |>.symm
    next => cases h
  · rintro rfl
    rfl

def clauseText (front gap : List Trivium) (rest : List Char) : String :=
  String.ofList (written front ++ "package".toList ++ written gap ++ rest)

theorem name?_front (front : List Trivium) (cs : List Char) :
    name? (String.ofList (written front ++ cs)) = name? (String.ofList cs) := by
  unfold name?
  rw [String.toList_ofList, String.toList_ofList, skipTrivia_written]

theorem name?_eq_some_iff {text name : String} : name? text = some name ↔
    ∃ rest, skipTrivia text.toList = "package".toList ++ rest ∧
      (skipTrivia rest).length ≠ rest.length ∧ LongestName name (skipTrivia rest) := by
  unfold name?
  constructor
  · intro h
    split at h
    next => cases h
    next rest hrest =>
      dsimp only at h
      split at h
      next => cases h
      next hfound =>
        rw [Bool.or_eq_true, not_or, decide_eq_true_eq, List.isEmpty_iff] at hfound
        obtain rfl := Option.some.inj h
        exact ⟨rest, afterKeyword?_eq_some_iff.mp hrest, hfound.1,
          longestName_takeWhile hfound.2⟩
  · rintro ⟨rest, hrest, hgap, hname⟩
    rw [afterKeyword?_eq_some_iff.mpr hrest]
    dsimp only
    rw [hname.takeWhile_eq, if_neg]
    · rw [String.ofList_toList]
    · rw [Bool.or_eq_true, not_or, decide_eq_true_eq, List.isEmpty_iff]
      exact ⟨hgap, fun e => hname.nonempty (String.toList_eq_nil_iff.mp e)⟩

theorem length_skipTrivia_le (cs : List Char) : (skipTrivia cs).length ≤ cs.length := by
  by_cases h : skipTrivia cs = []
  · rw [h]
    exact Nat.zero_le _
  · obtain ⟨trivia, htrivia⟩ := exists_trivia cs h
    have := congrArg List.length htrivia
    rw [List.length_append] at this
    omega

theorem name?_gap {front gap : List Trivium} (hgap : gap ≠ []) {rest : List Char}
    {name : String} :
    name? (clauseText front gap rest) = some name ↔ LongestName name (skipTrivia rest) := by
  have hkeyword : skipTrivia (clauseText front gap rest).toList =
      "package".toList ++ (written gap ++ rest) := by
    rw [clauseText, String.toList_ofList, List.append_assoc, List.append_assoc, skipTrivia_written]
    exact skipTrivia_of_isNameChar (by decide +kernel) _
  have hskip : skipTrivia (written gap ++ rest) = skipTrivia rest := skipTrivia_written gap rest
  have hshorter : (skipTrivia rest).length ≠ (written gap ++ rest).length := by
    have hpos := List.length_pos_iff.mpr (mt written_eq_nil_iff.mp hgap)
    have hle := length_skipTrivia_le rest
    rw [List.length_append]
    omega
  rw [name?_eq_some_iff]
  constructor
  · rintro ⟨after, hafter, -, hname⟩
    obtain rfl := List.append_cancel_left (hkeyword.symm.trans hafter)
    rwa [hskip] at hname
  · intro hname
    rw [← hskip] at hname hshorter
    exact ⟨_, hkeyword, hshorter, hname⟩

/-- The name of a package is found exactly where the text is a package clause: trivia or nothing,
the keyword, trivia, and the name as the longest run of the characters of names. More trivia at
the beginning of any text makes no difference, nor does more of it after the keyword. -/
theorem package_clauses_are_recognized :
    (∀ text name, name? text = some name ↔ ∃ front gap rest, gap ≠ [] ∧
      text = clauseText front gap rest ∧ LongestName name rest) ∧
    (∀ trivia text, name? (String.ofList (written trivia) ++ text) = name? text) ∧
    ∀ front before added after rest, before ++ after ≠ [] →
      name? (clauseText front (before ++ added ++ after) rest) =
        name? (clauseText front (before ++ after) rest) := by
  refine ⟨fun text name => ?_, fun trivia text => ?_,
    fun front before added after rest hgap => ?_⟩
  · constructor
    · intro h
      obtain ⟨after, hafter, hlength, hname⟩ := name?_eq_some_iff.mp h
      have hfound : skipTrivia after ≠ [] := by
        intro e
        have := hname.takeWhile_eq
        rw [e, List.takeWhile_nil] at this
        exact hname.nonempty (String.toList_eq_nil_iff.mp this.symm)
      have hclause : skipTrivia text.toList ≠ [] := by
        rw [hafter]
        exact List.cons_ne_nil _ _
      obtain ⟨front, hfront⟩ := exists_trivia text.toList hclause
      obtain ⟨gap, hgap⟩ := exists_trivia after hfound
      refine ⟨front, gap, skipTrivia after, ?_, ?_, hname⟩
      · rintro rfl
        exact hlength (congrArg List.length hgap).symm
      · rw [clauseText, List.append_assoc, List.append_assoc, ← hgap, ← hafter, ← hfront,
          String.ofList_toList]
    · rintro ⟨front, gap, rest, hgap, rfl, hname⟩
      rw [name?_gap hgap, hname.skipTrivia_eq]
      exact hname
  · have happend : String.ofList (written trivia) ++ text =
        String.ofList (written trivia ++ text.toList) := by
      rw [String.ofList_append, String.ofList_toList]
    rw [happend, name?_front, String.ofList_toList]
  · have hmore : before ++ added ++ after ≠ [] := by
      simp_all
    apply Option.ext
    intro name
    rw [name?_gap hmore, name?_gap hgap]

/-- The clause of a file that begins with a comment, and the same with a comment after the
keyword. -/
theorem commented_clause_is_recognized :
    let front := [Trivium.lineComment " doc".toList (by decide), .blank '\t' (by decide)]
    let gap := [Trivium.blank ' ' (by decide)]
    let comment := Trivium.blockComment "* package q *".toList (by decide)
    name? (clauseText front gap "models;".toList) = some "models" ∧ gap ++ [] ≠ [] ∧
      name? (clauseText front (gap ++ [comment] ++ []) "models;".toList) = some "models" := by
  intro front gap comment
  obtain ⟨hiff, -, hmore⟩ := package_clauses_are_recognized
  have hname : LongestName "models" "models;".toList := by
    have hletters : "models".toList.all isNameChar = true := by decide +kernel
    refine ⟨by decide, [';'], rfl, List.all_eq_true.mp hletters, ?_⟩
    rintro _ ⟨⟩
    decide +kernel
  have hgap : gap ++ [] ≠ [] := List.cons_ne_nil _ _
  have hclause : name? (clauseText front gap "models;".toList) = some "models" :=
    (hiff _ _).mpr ⟨front, gap, _, hgap, rfl, hname⟩
  exact ⟨hclause, hgap, (hmore front gap [comment] [] _ hgap).trans hclause⟩

end GoPackages.PackageClause
