/-!
Identities of the three kinds of stored objects. Each is a position in the store that owns the
object, so identities count up from zero in order of allocation and are never reused.
-/
namespace GoPackages

structure RefId where
  index : Nat
  deriving DecidableEq, Repr

structure TypeId where
  index : Nat
  deriving DecidableEq, Repr

structure PackageId where
  index : Nat
  deriving DecidableEq, Repr

end GoPackages
