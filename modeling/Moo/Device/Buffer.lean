import Moo.Device.Basic

/-!
# Buffers

A buffer serves reads from two queues that were filled beforehand and records the writes.
-/

namespace Moo

/-- Queued input and recorded output. -/
structure Buffer where
  chars : List Nat
  numbers : List Int
  output : Array Output
  deriving Repr

namespace Buffer

def ofInput (chars : String) (numbers : List Int) : Buffer :=
  ⟨chars.toList.map Char.toNat, numbers, #[]⟩

def read : Channel → EStateM Fault Buffer Int
  | .char => fun b =>
    match b.chars with
    | [] => .error (.exhausted .character) b
    | c :: rest => .ok c { b with chars := rest }
  | .byte => fun b =>
    match b.numbers with
    | [] => .error (.exhausted .integer) b
    | n :: rest => .ok n { b with numbers := rest }

def write (channel : Channel) (value : Int) : EStateM Fault Buffer Unit :=
  fun ⟨chars, numbers, output⟩ => .ok () ⟨chars, numbers, output.push ⟨channel, value⟩⟩

def device : Device Buffer := ⟨read, write⟩

def text (b : Buffer) : Except Fault String := Output.render b.output.toList

end Buffer

end Moo
