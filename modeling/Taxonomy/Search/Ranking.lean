import Taxonomy.Search.Alignment
import Taxonomy.Search.Entry

/-!
# Ranking

Entries are scored one after the other, those that do not fit are left out, and the others are
listed by score, best first. Equal scores keep the order of the entries, and `limit` cuts the list.
-/

namespace Taxonomy

/-- An entry that fits a query, and how well. -/
structure Hit where
  id : String
  score : Int
  deriving DecidableEq, Repr, Inhabited

namespace Hit

/-- The hits among the entries, in their order. A scorer sees the names in turn and may remember
something from one to the next. -/
def collect {σ : Type} (scorer : σ → String → Option Int × σ) :
    σ → List SearchEntry → List Hit
  | _, [] => []
  | state, e :: es =>
    match scorer state e.name with
    | (some score, state) => ⟨e.id, score⟩ :: collect scorer state es
    | (none, state) => collect scorer state es

/-- The best hits: sorted by score, equal scores in the order given. -/
def best (limit : Nat) (hits : List Hit) : List Hit :=
  (hits.mergeSort fun a b => decide (b.score ≤ a.score)).take limit

end Hit

/-- The best hits under any scorer. -/
def rank {σ : Type} (scorer : σ → String → Option Int × σ) (state : σ)
    (entries : List SearchEntry) (limit : Nat) : List Hit :=
  Hit.best limit (Hit.collect scorer state entries)

/-- The entries whose names fit the query best. -/
def search (entries : List SearchEntry) (query : String) (limit : Nat) : List Hit :=
  rank (Alignment.score (.ofText query)) #[] entries limit

end Taxonomy
