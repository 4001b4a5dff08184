/-
What a scalar stands for.

A plain scalar is taken for a truth value, a number, a date or nothing by its looks;
everything else is text.  A tag can say the kind instead, and the scalar has to look like
it.
-/
import SvgTree.Fault
import SvgTree.Markup.Token

namespace SvgTree
namespace Yaml

/-- What a node is taken for: its looks decide where it is plain. -/
inductive Kind where
  | plain
  | text
  | null
  | bool
  | int
  | float
  | time
  | list
  | dict
  | unknown
  deriving DecidableEq

def Kind.ofTag (tag : String) : Kind :=
  let known := [("str", text), ("null", null), ("bool", bool), ("int", int), ("float", float),
    ("timestamp", time), ("seq", list), ("map", dict)]
  ((known.find? fun (name, _) => "tag:yaml.org,2002:" ++ name == tag).map (·.2)).getD unknown

/-! ## Numbers -/

/-- A number in digits of a base; none without any digit or with a character that is none. -/
def ofDigits? (digit : Char → Option Nat) (base : Nat) (cs : List Char) : Option Nat :=
  if cs.isEmpty then none
  else cs.foldlM (fun acc c => (digit c).map (acc * base + ·)) 0

def binaryDigit? (c : Char) : Option Nat :=
  if c == '0' then some 0 else if c == '1' then some 1 else none

def octalDigit? (c : Char) : Option Nat :=
  if '0' ≤ c && c ≤ '7' then some (c.toNat - 48) else none

def withoutLines (cs : List Char) : List Char := cs.filter (· != '_')

def isDigitOrLine (c : Char) : Bool := c.isDigit || c == '_'

/-- Whether the sign is negative, whether there is one, and what follows it. -/
def splitSign : List Char → Bool × Bool × List Char
  | '-' :: rest => (true, true, rest)
  | '+' :: rest => (false, true, rest)
  | cs => (false, false, cs)

/-- Whether digits are a place of a number to the base sixty: one digit, or two below sixty. -/
def isSixtieth (cs : List Char) : Bool :=
  match cs with
  | [a] => a.isDigit
  | [a, b] => '0' ≤ a && a ≤ '5' && b.isDigit
  | _ => false

def isDigits : List Char → Bool
  | [] => false
  | c :: rest => c.isDigit && rest.all isDigitOrLine

/-- A whole number after a mark of its base.  Low lines alone are no number, though they
look like one. -/
def basedInt? (digit : Char → Option Nat) (base : Nat) (cs : List Char) :
    Option (Except Fault Nat) :=
  if cs.isEmpty || !cs.all fun c => (digit c).isSome || c == '_' then none
  else
    match ofDigits? digit base (withoutLines cs) with
    | some n => some (.ok n)
    | none => some (.error (.badNumber base (String.ofList (withoutLines cs))))

/-- A whole number without its sign: to the base 2, 8, 10, 16 or 60. -/
def natural? (cs : List Char) : Option (Except Fault Nat) :=
  match cs with
  | ['0'] => some (.ok 0)
  | '0' :: 'b' :: rest => basedInt? binaryDigit? 2 rest
  | '0' :: 'x' :: rest => basedInt? Markup.hexDigit? 16 rest
  | '0' :: rest => (basedInt? octalDigit? 8 rest).map fun _ =>
      .ok ((ofDigits? octalDigit? 8 (withoutLines rest)).getD 0)
  | cs =>
    match Text.splitChars ':' cs with
    | [] => none
    | first :: parts =>
      if isDigits first && parts.all isSixtieth then
        some (.ok ((first :: parts).foldl
          (fun acc p => acc * 60 + (ofDigits? Markup.digit? 10 (withoutLines p)).getD 0) 0))
      else none

def int? (cs : List Char) : Option (Except Fault Int) :=
  let (negative, _, body) := splitSign cs
  (natural? body).map fun r => r.map fun n => if negative then -(n : Int) else n

def decimal (negative : Bool) (whole fraction : List Char) (exponent : Int) : Binary64 :=
  let digits := withoutLines (whole ++ fraction)
  .ofDecimal negative ((ofDigits? Markup.digit? 10 digits).getD 0)
    (exponent - (withoutLines fraction).length)

/-- The exponent of a number, which has a sign; none where something else follows the digits. -/
def exponent? (cs : List Char) : Option Int :=
  match cs with
  | [] => some 0
  | e :: sign :: digits =>
    if (e == 'e' || e == 'E') && (sign == '+' || sign == '-') then
      (ofDigits? Markup.digit? 10 digits).map fun n => if sign == '-' then -(n : Int) else n
    else none
  | _ => none

def sixtieths (places : List Binary64) : Binary64 :=
  (places.foldl
    (fun (sum, unit) place => (Binary64.add sum (.mul place (.ofInt unit)), unit * 60))
    (Binary64.round false 0 1, (1 : Int))).1

def sixtyFloat? (negative : Bool) (cs : List Char) : Option Binary64 :=
  match (Text.splitChars ':' cs).reverse with
  | last :: before =>
    let (whole, rest) := last.span (· != '.')
    match before.reverse, rest with
    | first :: middle, '.' :: fraction =>
      if isDigits first && middle.all isSixtieth && isSixtieth whole &&
          fraction.all isDigitOrLine then
        let sum := sixtieths
          (decimal false whole fraction 0 :: before.map fun p => decimal false p [] 0)
        some (if negative then sum.neg else sum)
      else none
    | _, _ => none
  | [] => none

def float? (cs : List Char) : Option Binary64 :=
  let (negative, signed, body) := splitSign cs
  if [".inf", ".Inf", ".INF"].contains (String.ofList body) then some (.infinite negative)
  else if !signed && [".nan", ".NaN", ".NAN"].contains (String.ofList body) then some .nan
  else
    let (whole, rest) := body.span isDigitOrLine
    match rest with
    | '.' :: rest =>
      let (fraction, rest) := rest.span isDigitOrLine
      if if whole.isEmpty then !signed && isDigits fraction else isDigits whole then
        (exponent? rest).map (decimal negative whole fraction ·)
      else none
    | ':' :: _ => sixtyFloat? negative body
    | _ => none

/-! ## Dates -/

def oneOrTwo? (cs : List Char) : Option (Nat × List Char) :=
  match cs with
  | a :: rest =>
    match Markup.digit? a with
    | none => none
    | some m =>
      match rest with
      | b :: more => some (((Markup.digit? b).map fun n => (m * 10 + n, more)).getD (m, rest))
      | [] => some (m, [])
  | [] => none

def exactly? (width : Nat) (cs : List Char) : Option (Nat × List Char) :=
  if cs.length < width then none
  else (ofDigits? Markup.digit? 10 (cs.take width)).map fun n => (n, cs.drop width)

def after? (c : Char) : List Char → Option (List Char)
  | [] => none
  | d :: rest => if d == c then some rest else none

def skipBlanks (cs : List Char) : List Char := cs.dropWhile fun c => c == ' ' || c == '\t'

def day? (cs : List Char) : Option (Date × List Char) := do
  let (year, cs) ← exactly? 4 cs
  let (month, cs) ← oneOrTwo? (← after? '-' cs)
  let (day, cs) ← oneOrTwo? (← after? '-' cs)
  return (⟨year, month, day⟩, cs)

/-- The distance to universal time in minutes, if it is told; none if something else is
there. -/
def zone? (cs : List Char) : Option (Option Int) :=
  if cs.isEmpty then some none
  else
    match skipBlanks cs with
    | ['Z'] => some (some 0)
    | sign :: rest =>
      if sign != '+' && sign != '-' then none
      else
        match oneOrTwo? rest with
        | none => none
        | some (hours, rest) =>
          let minutes := if rest.isEmpty then some (0, [])
            else (after? ':' rest).bind (exactly? 2)
          match minutes with
          | some (minutes, []) =>
            let ahead : Int := hours * 60 + minutes
            some (some (if sign == '-' then -ahead else ahead))
          | _ => none
    | [] => none

/-- A fraction of a second in microseconds; further digits do not count. -/
def microseconds (digits : List Char) : Nat :=
  let six := digits.take 6
  (ofDigits? Markup.digit? 10 six).getD 0 * Nat.pow 10 (6 - six.length)

def clock? (date : Date) (cs : List Char) : Option Moment := do
  let cs ← match cs with
    | 'T' :: rest => some rest
    | 't' :: rest => some rest
    | c :: _ => if c == ' ' || c == '\t' then some (skipBlanks cs) else none
    | [] => none
  let (hour, cs) ← oneOrTwo? cs
  let (minute, cs) ← exactly? 2 (← after? ':' cs)
  let (second, cs) ← exactly? 2 (← after? ':' cs)
  let (fraction, cs) := match cs with
    | '.' :: rest => rest.span Char.isDigit
    | _ => ([], cs)
  return ⟨date, hour, minute, second, microseconds fraction, ← zone? cs⟩

def isFullDay (cs : List Char) : Bool := cs.length == 10

def checkedDate (d : Date) : Except Fault Date :=
  if d.year == 0 then .error (.badDate "year 0 is out of range")
  else if d.month == 0 || 12 < d.month then .error (.badDate "month must be in 1..12")
  else if d.day == 0 || Date.daysIn d.year d.month < d.day then
    .error (.badDate "day is out of range for month")
  else .ok d

def checkedMoment (m : Moment) : Except Fault Moment :=
  match m.offset.filter (1440 ≤ ·.natAbs) with
  | some minutes => .error (.badDate ("offset must be a timedelta strictly between " ++
      "-timedelta(hours=24) and timedelta(hours=24), not " ++ Moment.spanLiteral minutes ++ "."))
  | none =>
    match checkedDate m.date with
    | .error e => .error e
    | .ok _ =>
      if 24 ≤ m.hour then .error (.badDate "hour must be in 0..23")
      else if 60 ≤ m.minute then .error (.badDate "minute must be in 0..59")
      else if 60 ≤ m.second then .error (.badDate "second must be in 0..59")
      else .ok m

def time? (cs : List Char) : Option (Except Fault Value) :=
  match day? cs with
  | none => none
  | some (date, []) => if isFullDay cs then some ((checkedDate date).map .date) else none
  | some (date, rest) => (clock? date rest).map fun m => (checkedMoment m).map .moment

/-! ## Words -/

/-- The truth value that a word stands for: in small letters, in capitals, or with a capital
first. -/
def bool? (word : String) : Option Bool :=
  if ["yes", "Yes", "YES", "true", "True", "TRUE", "on", "On", "ON"].contains word then some true
  else if ["no", "No", "NO", "false", "False", "FALSE", "off", "Off", "OFF"].contains word then
    some false
  else none

def isNull (word : String) : Bool := ["", "~", "null", "Null", "NULL"].contains word

/-- The key under which a mapping takes over the entries of others. -/
def mergeMark : List Char := ['<', '<']

/-- The key that stands for a mapping's own value. -/
def valueMark : List Char := ['=']

/-- The value of a plain scalar.  The two marks for keys have none. -/
def ofPlain (cs : List Char) : Except Fault Value :=
  let word := String.ofList cs
  if isNull word then .ok .null
  else if cs == mergeMark || cs == valueMark then .error .notYaml
  else
    match bool? word with
    | some b => .ok (.bool b)
    | none =>
      match float? cs with
      | some x => .ok (.float x)
      | none =>
        match int? cs with
        | some r => r.map .int
        | none => (time? cs).getD (.ok (.text word))

def Kind.value (kind : Kind) (cs : List Char) : Except Fault Value :=
  match kind with
  | .plain => ofPlain cs
  | .text => .ok (.text (String.ofList cs))
  | .null => .ok .null
  | .bool => ((bool? (String.ofList cs)).map fun b => .ok (.bool b)).getD (.error .notYaml)
  | .int => ((int? cs).map fun r => r.map .int).getD (.error .notYaml)
  | .float =>
    match float? cs, int? cs with
    | some x, _ => .ok (.float x)
    | none, some r => r.map fun n => .float (.ofInt n)
    | none, none => .error .notYaml
  | .time => (time? cs).getD (.error .notYaml)
  | .list | .dict | .unknown => .error .notYaml

end Yaml
end SvgTree
