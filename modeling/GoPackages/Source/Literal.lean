/-!
The text inside a string literal. Both literal forms lose their delimiters and nothing else: the
escapes of an interpreted literal are left for its reader.
-/
namespace GoPackages.Source

def isDelimiter (c : Char) : Bool := c == '"' || c == '\x60'

/-- A text that does not begin and end with one delimiter is left as it is. -/
def stripDelimiters : List Char → List Char
  | [] => []
  | q :: rest =>
    if isDelimiter q && rest.getLast? == some q then rest.dropLast else q :: rest

/-- The value of a literal that is written `raw`. -/
def literalValue (raw : String) : String := String.ofList (stripDelimiters raw.toList)

theorem stripDelimiters_quote {q : Char} (h : isDelimiter q) (cs : List Char) :
    stripDelimiters (q :: (cs ++ [q])) = cs := by
  simp [stripDelimiters, h]

end GoPackages.Source
