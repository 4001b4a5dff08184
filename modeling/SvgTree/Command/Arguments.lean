/-
Command lines: options with and without values among the plain arguments.

An option can be written with a single hyphen and one letter, several such letters together,
or with two hyphens and any beginning of its name that no other option shares.  A value
follows as the next argument, after an equals sign, or directly after the letter.
-/
import SvgTree.Text.Blank

namespace SvgTree
namespace Command

structure Flag where
  key : String
  spellings : List String
  takesValue : Bool := false
  /-- The values allowed; none if every value is. -/
  choices : List String := []

structure Grammar where
  flags : List Flag
  plain : Nat
  required : List String := []

def helpFlag : Flag := { key := "help", spellings := ["-h", "--help"] }

/-- What a command line holds: plain arguments, and options in order with their values. -/
structure Arguments where
  plain : List String := []
  options : List (String × String) := []

namespace Arguments

def value? (a : Arguments) (key : String) : Option String :=
  (a.options.reverse.find? (·.1 == key)).map (·.2)

def has (a : Arguments) (key : String) : Bool := (a.value? key).isSome

end Arguments

inductive Refused where
  | help
  | usage
  deriving DecidableEq

/-- What an argument is: plain, the mark after which all are plain, an option as it was
spelled with a value if one came with it, or an option that is not known. -/
inductive Kind where
  | plain
  | mark
  | option (flag : Flag) (spelling : String) (value : Option String)
  | unknown

namespace Grammar

def spelled (g : Grammar) : List (String × Flag) :=
  g.flags.flatMap fun f => f.spellings.map (·, f)

def find? (g : Grammar) (spelling : String) : Option Flag := g.spelled.lookup spelling

def splitEquals (s : String) : Option (String × String) :=
  match s.toList.span (· != '=') with
  | (head, _ :: rest) => some (String.ofList head, String.ofList rest)
  | (_, []) => none

/-- The options that an argument may abbreviate, or a letter with its value. -/
def candidates (g : Grammar) (s : String) : List Kind :=
  match s.toList with
  | '-' :: '-' :: _ =>
    let (head, value) := match splitEquals s with
      | some (head, value) => (head, some value)
      | none => (s, none)
    g.spelled.filterMap fun (spelling, f) =>
      if head.toList.isPrefixOf spelling.toList then some (.option f spelling value) else none
  | '-' :: c :: rest =>
    g.spelled.filterMap fun (spelling, f) =>
      if spelling.toList == ['-', c] then some (.option f spelling (some (String.ofList rest)))
      else if s.toList.isPrefixOf spelling.toList then some (.option f spelling none)
      else none
  | _ => []

def isNumber (cs : List Char) : Bool :=
  match cs.span Char.isDigit with
  | ([], '.' :: rest) => !rest.isEmpty && rest.all Char.isDigit
  | (_, '.' :: rest) => !rest.isEmpty && rest.all Char.isDigit
  | (digits, []) => !digits.isEmpty
  | _ => false

/-- What an argument is; none if it abbreviates several options. -/
def kindOf? (g : Grammar) (s : String) : Option Kind :=
  match s.toList with
  | [] | ['-'] => some .plain
  | '-' :: rest =>
    match g.find? s with
    | some f => some (.option f s none)
    | none =>
      let exact := (splitEquals s).bind fun (head, value) =>
        (g.find? head).map fun f => Kind.option f head (some value)
      match exact, g.candidates s with
      | some k, _ => some k
      | none, [k] => some k
      | none, _ :: _ => none
      | none, [] =>
        some (if isNumber rest || s.toList.contains ' ' then .plain else .unknown)
  | _ => some .plain

def classify (g : Grammar) : List String → Option (List (String × Kind))
  | [] => some []
  | s :: rest =>
    if s == "--" then some ((s, .mark) :: rest.map (·, .plain))
    else
      match g.kindOf? s, classify g rest with
      | some k, some others => some ((s, k) :: others)
      | _, _ => none

def take (f : Flag) (value : String) (a : Arguments) : Except Refused Arguments :=
  if f.key == helpFlag.key then .error .help
  else if f.choices.isEmpty || f.choices.contains value then
    .ok { a with options := a.options ++ [(f.key, value)] }
  else .error .usage

/-- Takes the letters written together after a first option: options without values, and at
the end one with its value.  What remains to be taken is the option that needs the next
argument, if any does. -/
def takeLetters (g : Grammar) (f : Flag) (spelling : String) :
    List Char → List Flag → Except Refused (List Flag × Flag × Option String)
  | value, before =>
    if f.takesValue then .ok (before, f, some (String.ofList value))
    else
      match value with
      | [] => .error .usage
      | c :: rest =>
        if (spelling.toList.drop 1).head? == some '-' then .error .usage
        else
          let next := String.ofList ['-', c]
          match g.find? next with
          | none => .error .usage
          | some f' =>
            match rest with
            | [] => .ok (before ++ [f], f', none)
            | d :: more => takeLetters g f' next (d :: more) (before ++ [f])
termination_by value => value.length

def takeAll (a : Arguments) : List Flag → Except Refused Arguments
  | [] => .ok a
  | f :: rest =>
    match take f "" a with
    | .error e => .error e
    | .ok a => takeAll a rest

/-- Takes arguments in order.  `stray` tells whether something was left over, `held` whether
the argument before was taken as a plain one. -/
def takeArguments (g : Grammar) :
    Nat → (stray held : Bool) → List (String × Kind) → Arguments → Except Refused Arguments
  | 0, _, _, _, _ => .error .usage
  | _ + 1, stray, _, [], a => if stray then .error .usage else .ok a
  | fuel + 1, stray, held, (s, k) :: rest, a =>
    let room := a.plain.length < g.plain
    match k with
    | .plain =>
      if room then g.takeArguments fuel stray true rest { a with plain := a.plain ++ [s] }
      else g.takeArguments fuel true false rest a
    | .mark =>
      let fits := held || (room && !rest.isEmpty)
      g.takeArguments fuel (stray || !fits) false rest a
    | .unknown => g.takeArguments fuel true false rest a
    | .option f spelling value =>
      let letters : Except Refused (List Flag × Flag × Option String) := match value with
        | none => .ok ([], f, none)
        | some v => g.takeLetters f spelling v.toList []
      match letters with
      | .error e => .error e
      | .ok (before, last, value) =>
        -- The value has to be there before any of the letters takes effect.
        match last.takesValue, value, rest with
        | true, none, (v, .plain) :: rest =>
          match takeAll a before with
          | .error e => .error e
          | .ok a =>
            match take last v a with
            | .error e => .error e
            | .ok a => g.takeArguments fuel stray false rest a
        | true, none, _ => .error .usage
        | _, value, rest =>
          match takeAll a before with
          | .error e => .error e
          | .ok a =>
            match take last (value.getD "") a with
            | .error e => .error e
            | .ok a => g.takeArguments fuel stray false rest a

def parse (g : Grammar) (args : List String) : Except Refused Arguments :=
  match g.classify args with
  | none => .error .usage
  | some kinds =>
    match g.takeArguments (kinds.length + 1) false false kinds {} with
    | .error e => .error e
    | .ok a =>
      if a.plain.length == g.plain && g.required.all a.has then .ok a else .error .usage

end Grammar
end Command
end SvgTree
