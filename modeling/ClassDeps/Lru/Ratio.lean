import ClassDeps.Decimal.Layout
import ClassDeps.Lru

/-!
# Hit ratios

## Main definitions

* `Lru.Stats.hitRatio` — hits by look-ups as a double
* `Lru.Stats.hitPercent` — the ratio in percent, as it is shown
-/

namespace ClassDeps.Lru.Stats

/-- The bits of the double nearest to hits by look-ups; zero without look-ups. -/
def hitRatio (s : Stats) : Nat :=
  if s.hits + s.misses = 0 then 0
  else (Binary.binary64.round s.hits (s.hits + s.misses)).getD 0

/-- The double nearest to a hundred times the ratio, with one decimal place. -/
def hitPercent (s : Stats) : Numeral :=
  let scaled :=
    match Binary.binary64.decode s.hitRatio with
    | .finite _ m q =>
      (Binary.binary64.round (100 * m * twoTo q.toNat) (twoTo (-q).toNat)).getD 0
    | _ => 0
  match Binary.binary64.decode scaled with
  | .finite _ m q => Decimal.fixed 1 (m * twoTo q.toNat) (twoTo (-q).toNat)
  | _ => .ofNat 0

end ClassDeps.Lru.Stats
