/-!
# Dates and times of a TOML text

* `Toml.Date`, `Toml.Time`, `Toml.Offset` : a day, a time of day, a distance from universal time;
* `Toml.Moment` : a day, a time of day, or both, then perhaps with an offset;
* `Toml.Moment.read?` : the moment that a list of characters writes;
* `Toml.Moment.text` : its text in one form: `T` between day and time, seconds always, fractions of
  them without trailing zeros, `Z` in upper case.
-/

namespace OriginGate.Toml

/-- A day of the Gregorian calendar. -/
structure Date where
  year : Nat
  month : Nat
  day : Nat
deriving DecidableEq

/-- A time of day. -/
structure Time where
  hour : Nat
  minute : Nat
  second : Nat
  nanosecond : Nat
deriving DecidableEq

/-- How far a clock is from universal time. -/
inductive Offset where
  | none
  | universal
  | east (minutes : Nat)
  | west (minutes : Nat)
deriving DecidableEq

/-- A day, a time of day, or both. -/
inductive Moment where
  | day (date : Date)
  | clock (time : Time)
  | both (date : Date) (time : Time) (offset : Offset)
deriving DecidableEq

/-! ## Reading -/

/-- The number of decimal digits. -/
def digitsValue (digits : List Char) : Nat :=
  digits.foldl (fun n c => 10 * n + (c.toNat - 48)) 0

/-- A number of exactly so many digits. -/
def readDigits? (count : Nat) (cs : List Char) : Option (Nat × List Char) :=
  let run := cs.takeWhile Char.isDigit
  if run.length = count then some (digitsValue run, cs.drop count) else none

/-- What follows a character. -/
def after? (c : Char) : List Char → Option (List Char)
  | d :: rest => if d = c then some rest else none
  | [] => none

def isLeap (year : Nat) : Bool := year % 4 = 0 && (year % 100 ≠ 0 || year % 400 = 0)

/-- The days of a month. -/
def daysOf (year month : Nat) : Nat :=
  if month = 2 then if isLeap year then 29 else 28
  else if month = 4 ∨ month = 6 ∨ month = 9 ∨ month = 11 then 30
  else 31

/-- A day as `YYYY-MM-DD`. -/
def Date.read? (cs : List Char) : Option (Date × List Char) := do
  let (year, rest) ← readDigits? 4 cs
  let (month, rest) ← readDigits? 2 (← after? '-' rest)
  let (day, rest) ← readDigits? 2 (← after? '-' rest)
  if 1 ≤ month ∧ month ≤ 12 ∧ 1 ≤ day ∧ day ≤ daysOf year month then
    pure (⟨year, month, day⟩, rest)
  else none

/-- The nanoseconds of the digits after a decimal point; those after the ninth are dropped. -/
def nanoseconds (digits : List Char) : Nat :=
  digitsValue ((digits ++ List.replicate 9 '0').take 9)

/-- Seconds and nanoseconds after the minutes, if there are any. -/
def readSeconds? : List Char → Option (Nat × Nat × List Char)
  | ':' :: rest => do
    let (second, rest) ← readDigits? 2 rest
    match rest with
    | '.' :: rest =>
      let digits := rest.takeWhile Char.isDigit
      if digits.isEmpty then none
      else pure (second, nanoseconds digits, rest.dropWhile Char.isDigit)
    | rest => pure (second, 0, rest)
  | rest => some (0, 0, rest)

/--
A time of day as `HH:MM`, `HH:MM:SS` or with a fraction of the second, which may be a leap second.
-/
def Time.read? (cs : List Char) : Option (Time × List Char) := do
  let (hour, rest) ← readDigits? 2 cs
  let (minute, rest) ← readDigits? 2 (← after? ':' rest)
  let (second, nanosecond, rest) ← readSeconds? rest
  if hour ≤ 23 ∧ minute ≤ 59 ∧ second ≤ 60 then
    pure (⟨hour, minute, second, nanosecond⟩, rest)
  else none

/-- The minutes of an offset as `HH:MM`, which end it. -/
def readMinutes? (cs : List Char) : Option Nat := do
  let (hours, rest) ← readDigits? 2 cs
  let (minutes, rest) ← readDigits? 2 (← after? ':' rest)
  if hours ≤ 23 ∧ minutes ≤ 59 ∧ rest.isEmpty then pure (60 * hours + minutes) else none

/-- The offset that all characters after a time write. -/
def Offset.read? : List Char → Option Offset
  | [] => some .none
  | ['Z'] | ['z'] => some .universal
  | '+' :: rest => (readMinutes? rest).map .east
  | '-' :: rest => (readMinutes? rest).map .west
  | _ => Option.none

/-- Whether a character may stand between day and time. -/
def isDivider (c : Char) : Bool := c = 'T' || c = 't' || c = ' '

/-- The moment that all characters write. -/
def Moment.read? (cs : List Char) : Option Moment :=
  match Date.read? cs, Time.read? cs with
  | some (date, []), _ => some (.day date)
  | some (date, c :: rest), _ =>
    if isDivider c then do
      let (time, rest) ← Time.read? rest
      pure (.both date time (← Offset.read? rest))
    else none
  | none, some (time, []) => some (.clock time)
  | none, _ => none

/-! ## Text -/

/-- A number in at least so many digits. -/
def padded (width n : Nat) : String := String.ofList ((toString n).toList.leftpad width '0')

def Date.text (d : Date) : String :=
  padded 4 d.year ++ "-" ++ padded 2 d.month ++ "-" ++ padded 2 d.day

/-- The fraction of a second with its point, unless it is zero. -/
def fractionText (nanosecond : Nat) : String :=
  if nanosecond = 0 then ""
  else
    let digits := (padded 9 nanosecond).toList.reverse.dropWhile (· = '0')
    "." ++ String.ofList digits.reverse

def Time.text (t : Time) : String :=
  padded 2 t.hour ++ ":" ++ padded 2 t.minute ++ ":" ++ padded 2 t.second ++ fractionText t.nanosecond

/-- Hours and minutes. -/
def clockText (minutes : Nat) : String := padded 2 (minutes / 60) ++ ":" ++ padded 2 (minutes % 60)

def Offset.text : Offset → String
  | none => ""
  | universal => "Z"
  | east minutes => "+" ++ clockText minutes
  | west minutes => (if minutes = 0 then "+" else "-") ++ clockText minutes

def Moment.text : Moment → String
  | day d => d.text
  | clock t => t.text
  | both d t offset => d.text ++ "T" ++ t.text ++ offset.text

end OriginGate.Toml
