import JavaOutline.Text.Quoted
import JavaOutline.Yaml.Tag

/-! # Times

    A date, or a date with a time of day and perhaps a time zone.  Times of
    one sort are ordered by the moment they name. -/

namespace JavaOutline.Yaml

/-- The sorts of time, which are not compared with each other. -/
inductive TimeSort where
  | date
  | localTime
  | zonedTime
  deriving DecidableEq, Repr

/-- A time that exists. -/
structure Time where
  sort : TimeSort
  /-- Microseconds since the start of the calendar. -/
  moment : Int
  text : String
  deriving DecidableEq, Repr

namespace Time

/-- Whether a year has a leap day. -/
def isLeap (year : Nat) : Bool :=
  year % 4 == 0 && (year % 100 != 0 || year % 400 == 0)

/-- The days of the months of a year. -/
def monthDays (year : Nat) : List Nat :=
  [31, if isLeap year then 29 else 28, 31, 30, 31, 30, 31, 31, 30, 31, 30, 31]

/-- The days from the start of the calendar to a date. -/
def dayNumber (year month day : Nat) : Nat :=
  let y := year - 1
  365 * y + y / 4 - y / 100 + y / 400
    + ((monthDays year).take (month - 1)).foldl (· + ·) 0 + (day - 1)

/-- A number in decimal digits, padded with zeros. -/
def padded (width n : Nat) : String :=
  let ds := Nat.toDigits 10 n
  String.ofList (List.replicate (width - ds.length) '0' ++ ds)

/-- The microseconds that the digits after the point write. -/
def microseconds (fraction : List Char) : Nat :=
  let ds := fraction.take 6
  (ds ++ List.replicate (6 - ds.length) '0').foldl
    (fun n c => 10 * n + (c.toNat - 0x30)) 0

/-- The text of a time zone. -/
def zoneText (minutes : Int) : String :=
  (if minutes < 0 then "-" else "+") ++ padded 2 (minutes.natAbs / 60) ++ ":"
    ++ padded 2 (minutes.natAbs % 60)

/-- The time that a text writes, if it has the form of one and exists. -/
def ofText (s : String) : Read Time :=
  match timeFields? (withoutNewline s) with
  | none => .error .timeText
  | some f =>
    let longest := (monthDays f.year)[f.month - 1]?.getD 0
    let (hour, minute, second) := f.time.getD (0, 0, 0)
    let zone := f.zone.getD 0
    if f.year = 0 ∨ f.month = 0 ∨ f.day = 0 ∨ longest < f.day ∨ 24 ≤ hour
        ∨ 60 ≤ minute ∨ 60 ≤ second ∨ 1440 ≤ zone.natAbs then
      .error .timeRange
    else
      let date := padded 4 f.year ++ "-" ++ padded 2 f.month ++ "-"
        ++ padded 2 f.day
      let days := dayNumber f.year f.month f.day
      match f.time with
      | none => .ok ⟨.date, days * 86400000000, date⟩
      | some _ =>
        let micro := microseconds f.fraction
        let seconds : Int :=
          (days * 86400 + hour * 3600 + minute * 60 + second : Nat) - zone * 60
        let text := date ++ " " ++ padded 2 hour ++ ":" ++ padded 2 minute
          ++ ":" ++ padded 2 second
          ++ (if micro = 0 then "" else "." ++ padded 6 micro)
          ++ (match f.zone with
              | some z => zoneText z
              | none => "")
        .ok ⟨if f.zone.isSome then .zonedTime else .localTime,
          seconds * 1000000 + micro, text⟩

end Time

end JavaOutline.Yaml
