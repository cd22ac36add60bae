import Std.Data.HashMap

/-!
Interning: each distinct string is stored once and stands for a number. Numbers count up in order
of first occurrence. Strings are found through buckets of equal hashes, and a bucket is searched
for the string itself, so colliding strings stay apart whatever the hash is.
-/
namespace GoPackages.Source

structure Symbol where
  index : UInt32
  deriving DecidableEq, Repr

/-- A table of distinct strings whose buckets are keyed by `hash`. -/
structure Interner (hash : String → UInt64) where
  strings : Array String := #[]
  buckets : Std.HashMap UInt64 (List Symbol) := {}

namespace Interner

variable {hash : String → UInt64}

instance : Inhabited (Interner hash) := ⟨{}⟩

def resolve? (t : Interner hash) (symbol : Symbol) : Option String :=
  t.strings[symbol.index.toNat]?

def bucket (t : Interner hash) (s : String) : List Symbol := t.buckets.getD (hash s) []

def get? (t : Interner hash) (s : String) : Option Symbol :=
  (t.bucket s).find? fun symbol => t.resolve? symbol == some s

/-- The symbol of `s`, a new one at the first occurrence. -/
def intern (t : Interner hash) (s : String) : Symbol × Interner hash :=
  match t.get? s with
  | some symbol => (symbol, t)
  | none =>
    let symbol := ⟨UInt32.ofNat t.strings.size⟩
    (symbol, ⟨t.strings.push s, t.buckets.insert (hash s) (t.bucket s ++ [symbol])⟩)

def size (t : Interner hash) : Nat := t.strings.size

def isEmpty (t : Interner hash) : Bool := t.strings.isEmpty

theorem resolve?_of_get? {t : Interner hash} {s : String} {symbol : Symbol}
    (h : t.get? s = some symbol) : t.resolve? symbol = some s := by
  simpa using List.find?_some h

theorem intern_of_get? {t : Interner hash} {s : String} {symbol : Symbol}
    (h : t.get? s = some symbol) : t.intern s = (symbol, t) := by
  simp [intern, h]

end Interner

end GoPackages.Source
