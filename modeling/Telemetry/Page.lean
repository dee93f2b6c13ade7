/-!
Pages of listings.
-/

set_option autoImplicit false

namespace Telemetry

/-- How many records a listing shows at most, and how many it skips. -/
structure Page where
  limit : Int
  offset : Int
  deriving DecidableEq, Repr

namespace Page

/-- The limit of a listing that gives none. -/
def defaultLimit : Int := 100

/-- The page that is asked for; what is not given has its default, and negative numbers count as
zero. -/
def ofRequest (limit offset : Option Int) : Page :=
  ⟨max (limit.getD defaultLimit) 0, max (offset.getD 0) 0⟩

/-- The part of a list that a page shows. -/
def slice {α : Type} (p : Page) (xs : List α) : List α :=
  (xs.drop p.offset.toNat).take p.limit.toNat

end Page

end Telemetry
