/-!
Struct tags: the raw text of a tag and the parameters read from it. Where a key is repeated the
first parameter counts, so a tag keeps at most one parameter of each name.
-/
namespace GoPackages

/-- One pair of a tag; in `json:"id,omitempty"` the name is `json`, the value `id` and the only
option `omitempty`. -/
structure TagParam where
  name : String
  value : String
  options : List String
  deriving DecidableEq, Repr

/-- A tag without its delimiters and the parameters kept from it. -/
structure Tag where
  raw : String
  params : List TagParam := []
  deriving DecidableEq, Repr

namespace Tag

instance : Inhabited Tag := ⟨{ raw := "" }⟩

def param? (t : Tag) (name : String) : Option TagParam := t.params.find? (·.name == name)

def push? (t : Tag) (p : TagParam) : Option Tag :=
  match t.param? p.name with
  | some _ => none
  | none => some { t with params := t.params ++ [p] }

/-- A parameter whose name is already present is left out. -/
def push (t : Tag) (p : TagParam) : Tag := (t.push? p).getD t

def isEmpty (t : Tag) : Bool := t.raw.isEmpty && t.params.isEmpty

@[simp] theorem raw_push (t : Tag) (p : TagParam) : (t.push p).raw = t.raw := by
  unfold push push?; split <;> rfl

end Tag

end GoPackages
