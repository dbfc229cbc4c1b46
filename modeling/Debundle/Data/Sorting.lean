/-!
# Sorting

Items are sorted by asking of pairs of them which one comes first.  The items at the front that are
in order already are kept, or turned round if each comes before the one in front of it.  Every item
behind them is put in at a place that is found by halving.

If the answers are those of an order, the items are in order in the end, however it is done.  They
need not be: a floating-point value that is no number comes before nothing and nothing comes before
it, and then it matters which pairs are asked about.  This is how it is done for fewer than 64
items; of more items, parts are sorted and merged, with the same outcome if there is an order.

* `Sorting.takeRun`: the items at the front.
* `Sorting.insert`: one item put in.
* `Sorting.sort`: all items.
-/

namespace Debundle.Sorting

variable {α : Type}

/-- Splits a list where an item and the one in front of it no longer go on as they should; `last` is
in front of the list. -/
def spanNext (goesOn : α → α → Bool) (last : α) : List α → List α × List α
  | [] => ([], [])
  | x :: xs =>
    if goesOn last x then
      let (run, rest) := spanNext goesOn x xs
      (x :: run, rest)
    else ([], x :: xs)

/-- The items at the front that are in order, after they were turned round if they go down, and the
other ones. -/
def takeRun (before : α → α → Bool) : List α → List α × List α
  | x :: y :: rest =>
    if before y x then
      let (run, rest) := spanNext (fun last next => before next last) y rest
      ((x :: y :: run).reverse, rest)
    else
      let (run, rest) := spanNext (fun last next => !before next last) y rest
      (x :: y :: run, rest)
  | items => (items, [])

/-- A list with one more item, whose place is found in at most `fuel` halvings. -/
def insert (before : α → α → Bool) (x : α) : Nat → List α → List α
  | 0, items => x :: items
  | fuel + 1, items =>
    match items.drop (items.length / 2) with
    | [] => [x]
    | middle :: upper =>
      let lower := items.take (items.length / 2)
      if before x middle then insert before x fuel lower ++ middle :: upper
      else lower ++ middle :: insert before x fuel upper

/-- The items in order. -/
def sort (before : α → α → Bool) (items : List α) : List α :=
  let (run, rest) := takeRun before items
  rest.foldl (fun sorted x => insert before x sorted.length sorted) run

end Debundle.Sorting
