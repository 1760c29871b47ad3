/-!
# Association lists keyed by numbers

A keyed list holds at most one entry per key, in ascending key order. `Keyed.set` replaces
or inserts an entry and `Keyed.erase` drops one; lookups use `List.lookup`.
-/

namespace Fibers.Keyed

/-- Sets a key of an ascending association list, replacing its previous value. -/
def set {α : Type} (k : Nat) (v : α) : List (Nat × α) → List (Nat × α)
  | [] => [(k, v)]
  | (k', v') :: rest =>
    if k = k' then (k, v) :: rest
    else if k < k' then (k, v) :: (k', v') :: rest
    else (k', v') :: set k v rest

/-- Drops the entry of a key. -/
def erase {α : Type} (k : Nat) : List (Nat × α) → List (Nat × α)
  | [] => []
  | (k', v') :: rest => if k = k' then rest else (k', v') :: erase k rest

end Fibers.Keyed
