/-!
# First occurrences and repetitions

`keepFirst` keeps one item per key, the first; `repeated` keeps every item that
shares its key with another. Both keep the order of the list.
-/

namespace DomainLang

variable {α κ : Type} [DecidableEq κ]

/-- The first item of each key. -/
def keepFirst (key : α → κ) : List α → List α
  | [] => []
  | item :: rest => item :: (keepFirst key rest).filter fun other => key other ≠ key item

/-- The items whose key occurs more than once. -/
def repeated (key : α → κ) (items : List α) : List α :=
  items.filter fun item => 1 < items.countP fun other => key other = key item

end DomainLang
