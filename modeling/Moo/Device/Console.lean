import Moo.Device.Basic
import Moo.Number.Literal
import Moo.Text.Line

/-!
# Consoles

A console asks for each read with a prompt and goes on asking until a line is usable, one line per
prompt. Writes are shown at once.
-/

namespace Moo

/-- The lines not yet read, and what was written and prompted so far. -/
structure Console where
  lines : List (List Char)
  outs : String
  prompts : String
  deriving Repr

namespace Console

def ofText (stdin : String) : Console := ⟨Text.lines stdin.toList, "", ""⟩

def prompt : Channel → String
  | .char => "Enter a single ASCII character: "
  | .byte => "Enter a number: "

def complaint : String := "Invalid input.\n"

/-- What a line is worth on a channel: its only character, an ASCII one, or its number. -/
def accept (channel : Channel) (line : List Char) : Option Int :=
  let answer := Text.chomp line
  match channel with
  | .char =>
    match answer with
    | [c] => if c.toNat ≤ 127 then some c.toNat else none
    | _ => none
  | .byte =>
    match Number.parse (String.ofList (Text.stripBy Text.isBlank answer)) with
    | .ok n => some n
    | .error _ => none

/-- Ask until a line is accepted: its worth, the lines left, and the prompts so far. -/
def ask (channel : Channel) : List (List Char) → String → Option Int × List (List Char) × String
  | [], prompts => (none, [], prompts ++ prompt channel)
  | line :: rest, prompts =>
    match accept channel line with
    | some n => (some n, rest, prompts ++ prompt channel)
    | none => ask channel rest (prompts ++ prompt channel ++ complaint)

def read (channel : Channel) : EStateM Fault Console Int := fun ⟨lines, outs, prompts⟩ =>
  match ask channel lines prompts with
  | (some n, lines, prompts) => .ok n ⟨lines, outs, prompts⟩
  | (none, lines, prompts) => .error (.exhausted .console) ⟨lines, outs, prompts⟩

def write (channel : Channel) (value : Int) : EStateM Fault Console Unit :=
  fun ⟨lines, outs, prompts⟩ =>
    match Output.text ⟨channel, value⟩ with
    | .ok shown => .ok () ⟨lines, outs ++ shown, prompts⟩
    | .error e => .error e ⟨lines, outs, prompts⟩

def device : Device Console := ⟨read, write⟩

end Console

end Moo
