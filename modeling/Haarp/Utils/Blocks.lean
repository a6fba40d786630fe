import Mathlib.Data.List.Sort

/-!
# Block lists

The block lists of `utils.cpp`: which bytes of a resource the cache file holds, and at which offset.
Byte numbers and offsets are `long long int` in the source; here they are integers, and `getRangeWorkLL`
is the planner with the arithmetic of that type: the two differ when a block ends at its greatest number
(`getRangeWorkLL_eq`). Iterators into a list are indices.
-/

namespace Haarp

/-- `intervalPositionByteDisk`: the bytes `a` to `b` of the resource lie at offset `position` of the
cache file; in a plan, `position = -1` marks bytes that are not stored. -/
structure IntervalPositionByteDisk where
  a : Int
  b : Int
  position : Int
  deriving DecidableEq, Repr, Inhabited

/-- `lintervalPositionByteDisk` -/
abbrev LintervalPositionByteDisk := List IntervalPositionByteDisk

/-! ## Measures of a list -/

/-- `is_all_hit`, from the iterator on. -/
def isAllHit (it : LintervalPositionByteDisk) : Bool := it.all fun x => 0 ≤ x.position

def getFileSize : LintervalPositionByteDisk → Int
  | [] => 0
  | it :: its => (it.b - it.a + 1) + getFileSize its

def getExtremeb (l : LintervalPositionByteDisk) : Int :=
  l.foldl (fun max it => if it.b > max then it.b else max) (-1)

/-- The scan of `getlastnode`, from index `i` on: `last` is the node of the greatest position so far
and `ix` its index. -/
def getlastnodeScan (last : IntervalPositionByteDisk) (ix i : Nat) :
    LintervalPositionByteDisk → IntervalPositionByteDisk × Nat
  | [] => (last, ix)
  | it :: its =>
    if it.position > last.position then getlastnodeScan it i (i + 1) its
    else getlastnodeScan last ix (i + 1) its

/-- `getlastnode`: the first node of greatest position, with its index; an empty list has none (every
caller tests for it first). -/
def getlastnode : LintervalPositionByteDisk → Option (IntervalPositionByteDisk × Nat)
  | [] => none
  | it :: its => some (getlastnodeScan it 0 0 (it :: its))

/-- `getPointEnd`: the offset behind the last stored byte. -/
def getPointEnd (l : LintervalPositionByteDisk) : Int :=
  match getlastnode l with
  | none => 0
  | some (last, _) => last.position + last.b - last.a + 1

/-! ## Growing a list -/

def appendNode (l : LintervalPositionByteDisk) (newInterval : IntervalPositionByteDisk) :
    LintervalPositionByteDisk :=
  match getlastnode l with
  | none => newInterval :: l
  | some (last, ix) =>
    if last.b + 1 = newInterval.a then l.set ix { last with b := newInterval.b }
    else l.insertIdx (ix + 1) newInterval

/-- `appendSubNode`: appends the first `lenght_` bytes of the block. -/
def appendSubNode (l : LintervalPositionByteDisk) (newInterval : IntervalPositionByteDisk)
    (lenght_ : Int) : LintervalPositionByteDisk :=
  match getlastnode l with
  | none => { newInterval with b := lenght_ + newInterval.a - 1 } :: l
  | some (last, ix) =>
    if last.b + 1 = newInterval.a then
      l.set ix { last with b := lenght_ + newInterval.a - 1 }
    else l.insertIdx (ix + 1) { newInterval with b := lenght_ + newInterval.a - 1 }

/-! ## Planning a request -/

/-- `compareIntervals`, as the order by which `list::sort` leaves the nodes. -/
def compareIntervals (i₁ i₂ : IntervalPositionByteDisk) : Prop := i₁.a ≤ i₂.a

instance : DecidableRel compareIntervals :=
  fun i₁ i₂ => inferInstanceAs (Decidable (i₁.a ≤ i₂.a))

/-- `list::sort` with `compareIntervals`, a stable sort. -/
def sortIntervals (l : LintervalPositionByteDisk) : LintervalPositionByteDisk :=
  l.insertionSort compareIntervals

/-- The first loop of `getRangeWork`: the whole answer when one block holds the request (`inl`), else
`pr`, `tope` and the nodes still to visit. -/
def getRangeWorkStart (interval_a interval_b : Int) : LintervalPositionByteDisk →
    LintervalPositionByteDisk ⊕ (LintervalPositionByteDisk × Int × LintervalPositionByteDisk)
  | [] => .inr ([], -1, [])
  | it :: its =>
    if interval_a < it.a then .inr ([], interval_a, it :: its)
    else if interval_a ≥ it.a ∧ interval_a ≤ it.b then
      if interval_b ≤ it.b then
        .inl [{ a := interval_a, b := interval_b, position := it.position + interval_a - it.a }]
      else
        .inr ([{ a := interval_a, b := it.b, position := it.position + interval_a - it.a }],
          it.b + 1, its)
    else getRangeWorkStart interval_a interval_b its

/-- What the second loop of `getRangeWork` carries: the plan, `*hit` and the frontier `tope`. -/
structure RangeWork where
  pr : LintervalPositionByteDisk
  hit : Bool
  tope : Int
  deriving DecidableEq, Repr

/-- Pushes the bytes from `tope` to `b` as missing. -/
def RangeWork.pushMiss (w : RangeWork) (b : Int) : RangeWork :=
  { pr := w.pr ++ [{ a := w.tope, b, position := -1 }], hit := false, tope := b + 1 }

/-- The second loop of `getRangeWork`. -/
def getRangeWorkLoop (interval_b : Int) : RangeWork → LintervalPositionByteDisk → RangeWork
  | w, [] => w
  | w, it :: its =>
    if w.tope < 0 then w
    else if interval_b < it.a then w.pushMiss interval_b
    else
      let w := if w.tope < it.a then w.pushMiss (it.a - 1) else w
      if interval_b ≥ it.a ∧ interval_b ≤ it.b then
        { w with
          pr := w.pr ++ [{ a := w.tope, b := interval_b, position := it.position }]
          tope := it.b + 1 }
      else getRangeWorkLoop interval_b { w with pr := w.pr ++ [it], tope := it.b + 1 } its

/-- The end of `getRangeWork`: nothing found, or a tail behind the last block. -/
def getRangeWorkTail (interval_a interval_b : Int) (w : RangeWork) :
    LintervalPositionByteDisk × Bool :=
  if w.tope = -1 then ([{ a := interval_a, b := interval_b, position := -1 }], false)
  else if interval_b > w.tope then
    (w.pr ++ [{ a := w.tope, b := interval_b, position := -1 }], false)
  else (w.pr, w.hit)

/-- `getRangeWork`: the plan for the bytes `interval_a` to `interval_b`, and `*hit`. The list itself
is left sorted, `sortIntervals l`. -/
def getRangeWork (l : LintervalPositionByteDisk) (interval_a interval_b : Int) :
    LintervalPositionByteDisk × Bool :=
  match getRangeWorkStart interval_a interval_b (sortIntervals l) with
  | .inl pr => (pr, true)
  | .inr (pr, tope, its) =>
    getRangeWorkTail interval_a interval_b
      (getRangeWorkLoop interval_b { pr, hit := true, tope } its)

example : getRangeWork [⟨5, 9, 0⟩, ⟨0, 2, 5⟩] 1 12 =
    ([⟨1, 2, 6⟩, ⟨3, 4, -1⟩, ⟨5, 9, 0⟩, ⟨10, 12, -1⟩], false) := by decide

/-! ## Planning with 64-bit arithmetic -/

/-- What a `long long int` holds of an integer. -/
def longLong (n : Int) : Int := (Int64.ofInt n).toInt

/-- The offset of byte `interval_a` in the node, `itIntervalPos->position + interval_a -
itIntervalPos->a`. -/
def positionLL (it : IntervalPositionByteDisk) (interval_a : Int) : Int :=
  longLong (longLong (it.position + interval_a) - it.a)

/-- The first loop of `getRangeWork`. -/
def getRangeWorkStartLL (interval_a interval_b : Int) : LintervalPositionByteDisk →
    LintervalPositionByteDisk ⊕ (LintervalPositionByteDisk × Int × LintervalPositionByteDisk)
  | [] => .inr ([], -1, [])
  | it :: its =>
    if interval_a < it.a then .inr ([], interval_a, it :: its)
    else if interval_a ≥ it.a ∧ interval_a ≤ it.b then
      if interval_b ≤ it.b then
        .inl [{ a := interval_a, b := interval_b, position := positionLL it interval_a }]
      else
        .inr ([{ a := interval_a, b := it.b, position := positionLL it interval_a }],
          longLong (it.b + 1), its)
    else getRangeWorkStartLL interval_a interval_b its

/-- The second loop of `getRangeWork`; the bytes before a node are pushed up to `it.a - 1`, and `tope`
becomes `it.a`. -/
def getRangeWorkLoopLL (interval_b : Int) : RangeWork → LintervalPositionByteDisk → RangeWork
  | w, [] => w
  | w, it :: its =>
    if w.tope < 0 then w
    else if interval_b < it.a then
      { pr := w.pr ++ [{ a := w.tope, b := interval_b, position := -1 }], hit := false
        tope := longLong (interval_b + 1) }
    else
      let w :=
        if w.tope < it.a then
          { pr := w.pr ++ [{ a := w.tope, b := longLong (it.a - 1), position := -1 }], hit := false
            tope := it.a }
        else w
      if interval_b ≥ it.a ∧ interval_b ≤ it.b then
        { w with
          pr := w.pr ++ [{ a := w.tope, b := interval_b, position := it.position }]
          tope := longLong (it.b + 1) }
      else getRangeWorkLoopLL interval_b { w with pr := w.pr ++ [it], tope := longLong (it.b + 1) } its

/-- `getRangeWork` as the machine computes it: the end of it has no arithmetic. -/
def getRangeWorkLL (l : LintervalPositionByteDisk) (interval_a interval_b : Int) :
    LintervalPositionByteDisk × Bool :=
  match getRangeWorkStartLL interval_a interval_b (sortIntervals l) with
  | .inl pr => (pr, true)
  | .inr (pr, tope, its) =>
    getRangeWorkTail interval_a interval_b
      (getRangeWorkLoopLL interval_b { pr, hit := true, tope } its)

end Haarp
