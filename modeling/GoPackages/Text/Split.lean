/-!
Cutting text at a separator. Every separator cuts, so empty pieces are kept and joining the pieces
gives the text back.
-/
namespace GoPackages.Text

def splitAt (sep : Char) : List Char → List (List Char)
  | [] => [[]]
  | c :: rest =>
    if c = sep then [] :: splitAt sep rest
    else
      match splitAt sep rest with
      | [] => [[c]]
      | piece :: pieces => (c :: piece) :: pieces

def joinWith (sep : Char) : List (List Char) → List Char
  | [] => []
  | [piece] => piece
  | piece :: next :: pieces => piece ++ sep :: joinWith sep (next :: pieces)

theorem splitAt_ne_nil (sep : Char) (cs : List Char) : splitAt sep cs ≠ [] := by
  cases cs with
  | nil => simp [splitAt]
  | cons c rest =>
    rw [splitAt]
    split
    · simp
    · split <;> simp

theorem joinWith_splitAt (sep : Char) (cs : List Char) : joinWith sep (splitAt sep cs) = cs := by
  induction cs with
  | nil => rfl
  | cons c rest ih =>
    rw [splitAt]
    split
    next h =>
      obtain ⟨p, ps, hp⟩ := List.exists_cons_of_ne_nil (splitAt_ne_nil sep rest)
      rw [hp] at ih ⊢
      simp [joinWith, ih, h]
    next =>
      obtain ⟨p, ps, hp⟩ := List.exists_cons_of_ne_nil (splitAt_ne_nil sep rest)
      rw [hp] at ih ⊢
      cases ps with
      | nil => simpa [joinWith] using ih
      | cons q qs => simpa [joinWith] using ih

def split (sep : Char) (s : String) : List String :=
  (splitAt sep s.toList).map String.ofList

/-- The text before the last separator, and `none` where there is no separator. -/
def beforeLast? (sep : Char) (s : String) : Option String :=
  match s.toList.reverse.dropWhile (· != sep) with
  | [] => none
  | _ :: rest => some (String.ofList rest.reverse)

/-- The text after a prefix, and `none` where the text does not begin with it. -/
def afterPrefix? (before s : String) : Option String :=
  (before.toList.isPrefixOf? s.toList).map String.ofList

theorem dropWhile_reverse_append {sep : Char} {after : List Char} (h : sep ∉ after)
    (cs : List Char) :
    (after.reverse ++ cs).dropWhile (· != sep) = cs.dropWhile (· != sep) :=
  List.dropWhile_append_of_pos fun _ hc => bne_iff_ne.2 fun e => h (e ▸ List.mem_reverse.1 hc)

theorem beforeLast?_append {sep : Char} {before after : List Char} (h : sep ∉ after) :
    beforeLast? sep (String.ofList (before ++ sep :: after)) = some (String.ofList before) := by
  simp [beforeLast?, dropWhile_reverse_append h]

theorem beforeLast?_of_not_mem {sep : Char} {cs : List Char} (h : sep ∉ cs) :
    beforeLast? sep (String.ofList cs) = none := by
  have dropped := dropWhile_reverse_append h []
  rw [List.append_nil] at dropped
  simp [beforeLast?, dropped]

end GoPackages.Text
