import SmaliTrace.Number.Word

/-!
Points in time as they are written: a date, a time of day to the nanosecond, and the distance from
universal time.
-/
namespace SmaliTrace

/-- The year has a twenty-ninth of February. -/
def isLeapYear (year : Int) : Bool := year % 4 = 0 && (year % 100 ≠ 0 || year % 400 = 0)

/-- The number of days of a month. -/
def daysInMonth (year : Int) (month : Nat) : Nat :=
  if month = 2 then if isLeapYear year then 29 else 28
  else if month ∈ [4, 6, 9, 11] then 30
  else 31

/-- A date and time of day in a zone that is `offset` minutes ahead of universal time. -/
structure Timestamp where
  year : Int
  month : Nat
  day : Nat
  hour : Nat
  minute : Nat
  second : Nat
  nanosecond : Nat
  offset : Int
  isDate : (1 ≤ month ∧ month ≤ 12) ∧ 1 ≤ day ∧ day ≤ daysInMonth year month
  isTime : hour ≤ 23 ∧ minute ≤ 59 ∧ second ≤ 59 ∧ nanosecond < 1000000000
deriving DecidableEq, Repr

namespace Timestamp

/-- The days from the first day of the year zero to the first day of a year. -/
def daysBeforeYear (year : Int) : Int :=
  365 * year + (year + 3) / 4 + (year + 399) / 400 - (year + 99) / 100

/-- The days from the first day of the year zero to the date. -/
def days (t : Timestamp) : Int :=
  daysBeforeYear t.year +
    ((List.range (t.month - 1)).foldl (fun n m => n + daysInMonth t.year (m + 1)) 0 + (t.day - 1) : Nat)

/-- The minutes in universal time since the start of the year zero. -/
def minutes (t : Timestamp) : Int := (t.days * 24 + t.hour) * 60 + t.minute - t.offset

/-- The start of the year one, in whatever zone: a record with this time has none of its own. -/
def isZero (t : Timestamp) : Bool :=
  t.minutes = daysBeforeYear 1 * 24 * 60 && t.second = 0 && t.nanosecond = 0

/-- The last `width` decimal digits of a number. -/
def padded : (width : Nat) → Nat → List Char
  | 0, _ => []
  | width + 1, n => padded width (n / 10) ++ [Char.ofNat (48 + n % 10)]

/-- The fraction of a second, without zeros at its end. -/
def fraction (nanosecond : Nat) : List Char :=
  if nanosecond = 0 then []
  else '.' :: ((padded 9 nanosecond).reverse.dropWhile (· = '0')).reverse

/-- The zone: a letter for universal time, else the hours and minutes ahead or behind. -/
def zone (offset : Int) : List Char :=
  if offset = 0 then ['Z']
  else
    (if offset < 0 then '-' else '+') :: padded 2 (offset.natAbs / 60) ++
      ':' :: padded 2 (offset.natAbs % 60)

/-- The written form of a point in time. -/
def text (t : Timestamp) : String :=
  String.ofList (padded 4 t.year.toNat ++ '-' :: padded 2 t.month ++ '-' :: padded 2 t.day ++
    'T' :: padded 2 t.hour ++ ':' :: padded 2 t.minute ++ ':' :: padded 2 t.second ++
    fraction t.nanosecond ++ zone t.offset)

/-- Reads a text from its start. -/
abbrev Reader := StateT (List Char) Option

/-- Takes the character. -/
def expect (c : Char) : Reader Unit := do
  match ← get with
  | [] => failure
  | d :: rest => if d = c then set rest else failure

/-- Takes exactly so many digits. -/
def digits (count : Nat) : Reader Nat := do
  let s ← get
  set (s.drop count)
  if s.length < count then failure
  else StateT.lift (Text.digitsValue? Number.decimalValue? 10 (s.take count))

/-- Takes a number, which has to be at most `top`. -/
def below (top : Nat) (number : Reader Nat) : Reader Nat := do
  let n ← number
  if n ≤ top then pure n else failure

/-- Takes one or two digits. -/
def shortNumber : Reader Nat := do
  if ((← get).drop 1).head?.any fun c => (Number.decimalValue? c).isSome then digits 2 else digits 1

/-- Takes a fraction of a second, if there is one; digits behind the ninth are dropped. -/
def nanoseconds : Reader Nat := do
  match ← get with
  | mark :: rest =>
    let ds := rest.takeWhile fun c => (Number.decimalValue? c).isSome
    if (mark = '.' || mark = ',') && !ds.isEmpty then
      set (rest.drop ds.length)
      let nine := ds.take 9 ++ List.replicate (9 - ds.length) '0'
      StateT.lift (Text.digitsValue? Number.decimalValue? 10 nine)
    else pure 0
  | [] => pure 0

/-- Takes a zone and gives its distance from universal time in minutes. -/
def offsetMinutes : Reader Int := do
  match ← get with
  | 'Z' :: rest =>
    set rest
    pure 0
  | sign :: rest =>
    set rest
    let hours ← below 24 (digits 2)
    expect ':'
    let minutes ← below 60 (digits 2)
    let distance : Nat := hours * 60 + minutes
    if sign = '+' then pure distance else if sign = '-' then pure (-distance) else failure
  | [] => failure

/-- Takes a date, in the order of the calendar. The month and the day have one or two digits if they
may be `short`. -/
def date (short : Bool) : Reader (Nat × Nat × Nat) := do
  let number := if short then shortNumber else digits 2
  let year ← digits 4
  expect '-'
  let month ← below 12 number
  expect '-'
  let day ← number
  pure (year, month, day)

/-- Takes a time of day: the hour, the minute, the second and its fraction. -/
def timeOfDay (short : Bool) : Reader (Nat × Nat × Nat × Nat) := do
  let number := if short then shortNumber else digits 2
  let hour ← below 23 shortNumber
  expect ':'
  let minute ← below 59 number
  expect ':'
  let second ← below 59 number
  pure (hour, minute, second, ← nanoseconds)

/-- The point in time with the date and the time of day, if there is one. -/
def make? (date : Nat × Nat × Nat) (time : Nat × Nat × Nat × Nat) (offset : Int) : Option Timestamp :=
  let (year, month, day) := date
  let (hour, minute, second, nanosecond) := time
  if isDate : (1 ≤ month ∧ month ≤ 12) ∧ 1 ≤ day ∧ day ≤ daysInMonth year month then
    if isTime : hour ≤ 23 ∧ minute ≤ 59 ∧ second ≤ 59 ∧ nanosecond < 1000000000 then
      some ⟨year, month, day, hour, minute, second, nanosecond, offset, isDate, isTime⟩
    else none
  else none

/-- Takes a point in time. -/
def reader : Reader Timestamp := do
  let date ← date false
  expect 'T'
  let time ← timeOfDay false
  let offset ← offsetMinutes
  StateT.lift (make? date time offset)

/-- The value that a reader finds in the whole text. -/
def whole? {α : Type} (r : Reader α) (s : String) : Option α :=
  match r.run s.toList with
  | some (a, []) => some a
  | _ => none

/-- The point in time that a text denotes. -/
def read? (s : String) : Option Timestamp := whole? reader s

/-- Takes a date, or a date and a time of day, with short numbers. The zone is left out where blanks
divide the two. -/
def shortReader : Reader Timestamp := do
  let date ← date true
  match ← get with
  | [] => StateT.lift (make? date (0, 0, 0, 0) 0)
  | c :: rest =>
    set (if c = ' ' then rest.dropWhile (· = ' ') else rest)
    let time ← timeOfDay true
    if c = ' ' then StateT.lift (make? date time 0)
    else if c = 'T' || c = 't' then
      let offset ← offsetMinutes
      StateT.lift (make? date time offset)
    else failure

/-- The point in time that a text denotes, if short numbers are allowed. -/
def readShort? (s : String) : Option Timestamp := whole? shortReader s

end Timestamp

end SmaliTrace
