/-!
# The order of first occurrences

A list without its repetitions lists what occurs in the order of the first occurrences. It is read
from the front to the end: one more element counts only if it is new.
-/
namespace GoPackages

variable {α : Type} [BEq α] [LawfulBEq α]

theorem eraseDups_concat_of_mem {a : α} {l : List α} (h : a ∈ l) :
    (l ++ [a]).eraseDups = l.eraseDups := by
  simp [List.eraseDups_append, List.removeAll, h]

theorem eraseDups_concat_of_notMem {a : α} {l : List α} (h : a ∉ l) :
    (l ++ [a]).eraseDups = l.eraseDups ++ [a] := by
  simp [List.eraseDups_append, List.removeAll, h, List.eraseDups_cons]

end GoPackages
