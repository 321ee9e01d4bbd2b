/-! Dates, alone or with a time of day, as plain YAML scalars have them. -/

namespace ListLang.Yaml.Timestamp

def digit? : List Char → Option (Nat × List Char)
  | [] => none
  | c :: cs => if c.isDigit then some (c.toNat - 0x30, cs) else none

def number? (cs : List Char) : Option (Nat × List Char) := do
  let (a, cs) ← digit? cs
  match digit? cs with
  | some (b, cs) => some (10 * a + b, cs)
  | none => some (a, cs)

def twoDigits? (cs : List Char) : Option (Nat × List Char) := do
  let (a, cs) ← digit? cs
  let (b, cs) ← digit? cs
  return (10 * a + b, cs)

def expect? (c : Char) : List Char → Option (List Char)
  | [] => none
  | d :: cs => if d = c then some cs else none

def isLeapYear (year : Nat) : Bool := year % 4 = 0 && (year % 100 ≠ 0 || year % 400 = 0)

def daysIn (year month : Nat) : Nat :=
  if month = 2 then if isLeapYear year then 29 else 28
  else if [4, 6, 9, 11].contains month then 30
  else 31

/-- What follows a date of the calendar. The year has four digits. -/
def afterDate? (cs : List Char) : Option (List Char) := do
  let (century, cs) ← twoDigits? cs
  let (year, cs) ← twoDigits? cs
  let (month, cs) ← number? (← expect? '-' cs)
  let (day, cs) ← number? (← expect? '-' cs)
  if 1 ≤ month && month ≤ 12 && 1 ≤ day && day ≤ daysIn (100 * century + year) month then some cs
  else none

def afterFraction (cs : List Char) : List Char :=
  match cs with
  | [] => []
  | c :: rest =>
    if (c = '.' || c = ',') && (digit? rest).isSome then rest.dropWhile Char.isDigit else c :: rest

def afterTime? (cs : List Char) : Option (List Char) := do
  let (hour, cs) ← number? cs
  let (minute, cs) ← number? (← expect? ':' cs)
  let (second, cs) ← number? (← expect? ':' cs)
  if hour < 24 && minute < 60 && second < 60 then some (afterFraction cs) else none

/-- A zone is `Z` or an offset of hours and minutes. -/
def isZone : List Char → Bool
  | ['Z'] => true
  | sign :: cs =>
    (sign = '+' || sign = '-') &&
      match twoDigits? cs with
      | some (hours, ':' :: cs) =>
        match twoDigits? cs with
        | some (minutes, []) => hours ≤ 24 && minutes ≤ 60
        | _ => false
      | _ => false
  | [] => false

/-- A date, or a date and a time: with a zone after `T` or `t`, without one after spaces. -/
def isTimestamp (cs : List Char) : Bool :=
  match afterDate? cs with
  | none => false
  | some [] => true
  | some (c :: cs) =>
    if c = 'T' || c = 't' then ((afterTime? cs).map isZone).getD false
    else c = ' ' && afterTime? (cs.dropWhile (· = ' ')) = some []

end ListLang.Yaml.Timestamp
