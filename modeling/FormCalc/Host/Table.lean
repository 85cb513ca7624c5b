/-!
# Sorted tables

A table of names is kept sorted and searched by halving.  The search only asks how an
entry stands to the name that is looked for.
-/

namespace FormCalc.Host

/-- Compares two texts character by character, each character through `key`. -/
def compareBy (key : Char → Char) : List Char → List Char → Ordering
  | [], [] => .eq
  | [], _ :: _ => .lt
  | _ :: _, [] => .gt
  | a :: as, b :: bs => (compare (key a).toNat (key b).toNat).then (compareBy key as bs)

/-- Looks for an entry from place `low` up to but not including place `high`, in at most
`probes` steps.  `order` tells how an entry stands to what is looked for. -/
def searchWithin {α : Type} (order : α → Ordering) (table : Array α) :
    (probes low high : Nat) → Option α
  | 0, _, _ => none
  | probes + 1, low, high =>
    if low < high then
      match table[(low + high) / 2]? with
      | none => none
      | some entry =>
        match order entry with
        | .eq => some entry
        | .lt => searchWithin order table probes ((low + high) / 2 + 1) high
        | .gt => searchWithin order table probes low ((low + high) / 2)
    else none

/-- The entry of a sorted table that `order` finds equal.  Every step halves what is left,
so a table has far more entries than the search takes steps. -/
def search {α : Type} (order : α → Ordering) (table : Array α) : Option α :=
  searchWithin order table table.size 0 table.size

end FormCalc.Host
