import ToolCatalog.Number.Binary64

/-!
# Scalars

The values of a document that hold no others: null, booleans, unbounded integers, floating point
numbers, texts, and the calendar and binary data that YAML adds.  `Scalar.same` is the equality
documents are read with: numbers of different kinds are the same when their values are, `true`
counts as one and `false` as zero.  It is equality of what scalars count as, `Scalar.identity`, and
so an equivalence.
-/

namespace ToolCatalog

/-- A day of the calendar. -/
structure Date where
  year : Nat
  month : Nat
  day : Nat
deriving DecidableEq, Inhabited

/-- A moment on the clock of some place; `offset` is that place's distance from universal time in
minutes, if it is known. -/
structure Timestamp where
  date : Date
  hour : Nat
  minute : Nat
  second : Nat
  microsecond : Nat
  offset : Option Int
deriving DecidableEq, Inhabited

/-- A value that holds no others. -/
inductive Scalar where
  | null
  | bool (b : Bool)
  | int (i : Int)
  | float (x : Binary64)
  | text (s : String)
  | date (d : Date)
  | timestamp (t : Timestamp)
  | bytes (bs : List UInt8)
deriving DecidableEq, Inhabited

namespace Date

/-- Leap years are the multiples of four, but of the hundreds only every fourth. -/
def isLeap (year : Nat) : Bool :=
  year % 4 = 0 && (year % 100 ≠ 0 || year % 400 = 0)

def monthLength (year month : Nat) : Nat :=
  if month = 2 then (if isLeap year then 29 else 28)
  else if month = 4 ∨ month = 6 ∨ month = 9 ∨ month = 11 then 30
  else 31

/-- Whether the three numbers name a day of the years 1 to 9999. -/
def isValid (d : Date) : Bool :=
  1 ≤ d.year && d.year ≤ 9999 && 1 ≤ d.month && d.month ≤ 12 && 1 ≤ d.day
    && d.day ≤ monthLength d.year d.month

/-- The number of days from the first of January of the year 1 to this day. -/
def toDays (d : Date) : Nat :=
  let y := d.year - 1
  let before := (List.range (d.month - 1)).foldl (fun n m => n + monthLength d.year (m + 1)) 0
  y * 365 + y / 4 - y / 100 + y / 400 + before + (d.day - 1)

end Date

namespace Timestamp

def isValid (t : Timestamp) : Bool :=
  t.date.isValid && t.hour < 24 && t.minute < 60 && t.second < 60

/-- Microseconds since the start of the calendar, on the clock of universal time if the offset is
known. -/
def toMicroseconds (t : Timestamp) : Int :=
  let minutes : Int := (t.date.toDays * 24 + t.hour) * 60 + t.minute - t.offset.getD 0
  (minutes * 60 + t.second) * 1000000 + t.microsecond

end Timestamp

/-- What a scalar counts as when it is compared: numbers of all kinds count as fractions in lowest
terms, and moments with a known offset as instants. -/
inductive Identity where
  | null
  | number (numerator : Int) (denominator : Nat)
  | infinite (isNegative : Bool)
  | notANumber (bits : UInt64)
  | text (s : String)
  | date (d : Date)
  | moment (isAbsolute : Bool) (microseconds : Int)
  | bytes (bs : List UInt8)
deriving DecidableEq

/-- The fraction `n / d` in lowest terms. -/
def Identity.ofFraction (n : Int) (d : Nat) : Identity :=
  let g := n.natAbs.gcd d
  number (n / g) (d / g)

/-- What a floating point number counts as: the two zeros count as zero. -/
def Binary64.identity (x : Binary64) : Identity :=
  if x.isFinite then .ofFraction x.toFraction.1 x.toFraction.2
  else if x.isNaN then .notANumber x.bits
  else .infinite x.negative

namespace Scalar

/-- What a scalar counts as when it is compared: `true` counts as one and `false` as zero. -/
def identity : Scalar → Identity
  | null => .null
  | bool b => .number (if b then 1 else 0) 1
  | int i => .number i 1
  | float x => x.identity
  | text s => .text s
  | date d => .date d
  | timestamp t => .moment t.offset.isSome t.toMicroseconds
  | bytes bs => .bytes bs

/-- **Equality of scalars**: they count as the same.  Two texts need not be brought into a common
form first. -/
def same (s t : Scalar) : Bool :=
  match s, t with
  | text a, text b => a == b
  | s, t => s.identity == t.identity

/-- The integer value of a boolean or an integer. -/
def integer? : Scalar → Option Int
  | bool b => some (if b then 1 else 0)
  | int i => some i
  | _ => none

/-- Whether a scalar counts as true in a condition: null, false, zero and empty data do not. -/
def truthy : Scalar → Bool
  | null => false
  | bool b => b
  | int i => i != 0
  | float x => x.isNonzero
  | text s => s != ""
  | bytes bs => !bs.isEmpty
  | date _ | timestamp _ => true

theorem same_iff (s t : Scalar) : s.same t = true ↔ s.identity = t.identity := by
  unfold same
  split
  · simp [identity]
  · exact beq_iff_eq

@[simp] theorem same_refl (s : Scalar) : s.same s = true :=
  (same_iff s s).2 rfl

theorem same_comm (s t : Scalar) : s.same t = t.same s := by
  rw [Bool.eq_iff_iff, same_iff, same_iff]
  exact eq_comm

theorem same_trans {s t u : Scalar} (hst : s.same t = true) (htu : t.same u = true) :
    s.same u = true := by
  rw [same_iff] at *
  rw [hst, htu]

/-- Equal scalars are equal to the same others. -/
theorem same_congr {s t : Scalar} (h : s.same t = true) (u : Scalar) : s.same u = t.same u := by
  rw [Bool.eq_iff_iff, same_iff, same_iff, (same_iff s t).1 h]

/-- A text is the same as itself and as nothing else. -/
theorem same_text (s : String) (k : Scalar) : same (text s) k = true ↔ k = text s := by
  rw [same_iff]
  cases k with
  | text t =>
    simp only [identity, Identity.text.injEq, text.injEq]
    exact eq_comm
  | float x =>
    simp only [identity, Binary64.identity, Identity.ofFraction, reduceCtorEq, iff_false]
    split
    · simp
    · split <;> simp
  | _ => simp [identity]

end Scalar

end ToolCatalog
