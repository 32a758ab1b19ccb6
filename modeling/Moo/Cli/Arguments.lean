import Moo.Text.Class
import Moo.Text.Quoted

/-!
# Command-line arguments

A command line is a sequence of options and positional arguments in any order. A long option may be
shortened as long as only one starts that way, and may carry its value after an equals sign; a
double dash carried so is no value. Letters behind a short option without a value are short options
themselves. After a double dash everything is positional. An argument that looks like a negative
number, is a single dash, or contains a space is no option.

There is one positional slot, for one argument or for as many as stand together. Arguments are texts
of Unicode characters.
-/

namespace Moo.Cli

structure Switch where
  /-- Its spellings, the first of them the short one if it has one. -/
  spellings : List String
  takesValue : Bool
  /-- It asks for help, and nothing after it matters. -/
  isHelp : Bool
  deriving DecidableEq, Repr

def Switch.label (s : Switch) : String := String.intercalate "/" s.spellings

def Switch.help : Switch := ⟨["-h", "--help"], false, true⟩

def Switch.flag (spelling : String) : Switch := ⟨[spelling], false, false⟩

def Switch.valued (spelling : String) : Switch := ⟨[spelling], true, false⟩

structure Grammar where
  switches : List Switch
  /-- The name of the positional slot. -/
  slot : String
  /-- The slot takes more than one argument. -/
  many : Bool

inductive UsageError where
  | ambiguous (given : String) (candidates : List String)
  | valueMissing (label : String)
  | valueIgnored (label value : String)
  | badValue (label complaint : String)
  | slotEmpty (slot : String)
  | unrecognized (arguments : List String)
  | noProgram (path : String)
  deriving DecidableEq, Repr

def UsageError.message : UsageError → String
  | .ambiguous given candidates =>
    "ambiguous option: " ++ given ++ " could match " ++ String.intercalate ", " candidates
  | .valueMissing label => "argument " ++ label ++ ": expected one argument"
  | .valueIgnored label value =>
    "argument " ++ label ++ ": ignored explicit argument " ++ Text.quote value
  | .badValue label complaint => "argument " ++ label ++ ": " ++ complaint
  | .slotEmpty slot => "the following arguments are required: " ++ slot
  | .unrecognized arguments => "unrecognized arguments: " ++ String.intercalate " " arguments
  | .noProgram path => "program not found: " ++ path

/-- What an argument is taken for. -/
inductive Word where
  | plain (s : String)
  /-- The double dash. -/
  | separator
  /-- An option, with the value that it carries. -/
  | switch (s : Switch) (value : Option String)
  /-- Something that looks like an option but is not known. -/
  | unknown (s : String)
  deriving DecidableEq, Repr

/-- One thing given on a command line. -/
inductive Given where
  | slot (arguments : List String)
  | flag (s : Switch)
  /-- An option with its value, or with none where a double dash stands for it. -/
  | value (s : Switch) (value : Option String)
  | help
  deriving DecidableEq, Repr

/-- The characters are a negative number: digits of any script, perhaps after a point. A newline at
the end does not count. -/
def isNegativeNumber (cs : List Char) : Bool :=
  let cs := if cs.getLast? = some '\n' then cs.dropLast else cs
  match cs with
  | '-' :: body =>
    let digit := fun c => (Text.decimal? c).isSome
    match body.dropWhile digit with
    | [] => !body.isEmpty
    | '.' :: fraction => !fraction.isEmpty && fraction.all digit
    | _ => false
  | _ => false

/-- The text before the first equals sign, and the text after it if there is one. -/
def splitEquals (s : String) : String × Option String :=
  let cs := s.toList
  match cs.dropWhile (· != '=') with
  | [] => (s, none)
  | _ :: value => (String.ofList (cs.takeWhile (· != '=')), some (String.ofList value))

namespace Grammar

def spellings (g : Grammar) : List (String × Switch) :=
  g.switches.flatMap fun s => s.spellings.map fun spelling => (spelling, s)

def switch? (g : Grammar) (spelling : String) : Option Switch :=
  (g.spellings.find? fun p => p.1 == spelling).map (·.2)

/-- A short option with letters behind it. They are its value if it takes one, and otherwise short
options that each take the place of the one before. What is left at a letter that is no option is
carried by the last one. -/
def cluster (g : Grammar) (s : Switch) : List Char → Word
  | [] => .switch s none
  | c :: rest =>
    if s.takesValue then .switch s (some (String.ofList (c :: rest)))
    else
      match g.switch? (String.ofList ['-', c]) with
      | some next => g.cluster next rest
      | none => .switch s (some (String.ofList (c :: rest)))

/-- An option by its spelling, with the text that it carries. -/
def carrying (g : Grammar) (spelling : String) (s : Switch) (value : Option String) : Word :=
  match value with
  | none => .switch s none
  | some v =>
    if v = "" || "--".toList.isPrefixOf spelling.toList then .switch s (some v)
    else g.cluster s v.toList

/-- The options that an argument may be short for, with the value that it carries. -/
def candidates (g : Grammar) (s : String) : List (String × Switch × Option String) :=
  match s.toList with
  | '-' :: '-' :: _ =>
    let (start, value) := splitEquals s
    g.spellings.filterMap fun (spelling, switch) =>
      if start.toList.isPrefixOf spelling.toList then some (spelling, switch, value) else none
  | cs =>
    g.spellings.filterMap fun (spelling, switch) =>
      if spelling.toList = cs.take 2 then some (spelling, switch, some (String.ofList (cs.drop 2)))
      else if cs.isPrefixOf spelling.toList then some (spelling, switch, none)
      else none

/-- What an argument before the double dash is taken for. -/
def classify (g : Grammar) (s : String) : Except UsageError Word :=
  let cs := s.toList
  if cs.head? ≠ some '-' then .ok (.plain s)
  else
    match g.switch? s with
    | some switch => .ok (.switch switch none)
    | none =>
      if cs.length = 1 then .ok (.plain s)
      else
        let (start, value) := splitEquals s
        match value, g.switch? start with
        | some value, some switch => .ok (g.carrying start switch (some value))
        | _, _ =>
          match g.candidates s with
          | [(spelling, switch, value)] => .ok (g.carrying spelling switch value)
          | [] =>
            if isNegativeNumber cs || cs.contains ' ' then .ok (.plain s) else .ok (.unknown s)
          | several => .error (.ambiguous s (several.map (·.1)))

def words (g : Grammar) : List String → Except UsageError (List Word)
  | [] => .ok []
  | "--" :: rest => .ok (.separator :: rest.map .plain)
  | s :: rest => do
    let word ← g.classify s
    return word :: (← g.words rest)

/-- The plain arguments at the front, the double dash dropped from among them. -/
def plainRun : List Word → List String × List Word
  | .plain s :: rest =>
    let (ss, after) := plainRun rest
    (s :: ss, after)
  | .separator :: rest => plainRun rest
  | rest => ([], rest)

/-- What fills the slot from the front: one plain argument or all that stand together, with a double
dash before or after. -/
def fill (many : Bool) : List Word → Option (List String × List Word)
  | .plain s :: rest => some (fillAfter s rest)
  | .separator :: .plain s :: rest => some (fillAfter s rest)
  | _ => none
where
  /-- The slot has its first argument. -/
  fillAfter (s : String) (rest : List Word) : List String × List Word :=
    if many then
      let (ss, after) := plainRun rest
      (s :: ss, after)
    else
      match rest with
      | .separator :: after => ([s], after)
      | _ => ([s], rest)

def written : Word → List String
  | .plain s => [s]
  | .separator => ["--"]
  | .unknown s => [s]
  | .switch _ _ => []

/-- What is given, in order, up to the first complaint; `fuel` bounds the words. `filled` says that
the slot has been filled, and `stray` holds the arguments that have no use, latest first. -/
def gather (g : Grammar) : (fuel : Nat) → (filled : Bool) → (stray : List String) → List Word →
    List Given × Option UsageError
  | 0, _, _, _ => ([], none)
  | _ + 1, filled, stray, [] =>
    if !filled then ([], some (.slotEmpty g.slot))
    else if stray.isEmpty then ([], none)
    else ([], some (.unrecognized stray.reverse))
  | fuel + 1, filled, stray, word :: rest =>
    match word with
    | .switch s value =>
      if s.takesValue then
        match value, rest with
        | some v, _ =>
          cons (.value s (if v = "--" then none else some v)) (gather g fuel filled stray rest)
        | none, .plain v :: rest => cons (.value s (some v)) (gather g fuel filled stray rest)
        | none, _ => ([], some (.valueMissing s.label))
      else
        match value with
        | none =>
          if s.isHelp then ([.help], none)
          else cons (.flag s) (gather g fuel filled stray rest)
        | some v => ([], some (.valueIgnored s.label v))
    | _ =>
      match (if filled then none else fill g.many (word :: rest)) with
      | some (ss, rest) => cons (.slot ss) (gather g fuel true stray rest)
      | none => gather g fuel filled ((written word).reverse ++ stray) rest
where
  /-- Put something in front of what is given. -/
  cons (x : Given) (r : List Given × Option UsageError) : List Given × Option UsageError :=
    (x :: r.1, r.2)

/-- What a command line gives, in order, up to the first complaint. -/
def parse (g : Grammar) (arguments : List String) : List Given × Option UsageError :=
  match g.words arguments with
  | .error e => ([], some e)
  | .ok ws => g.gather (ws.length + 1) false [] ws

end Grammar

end Moo.Cli
