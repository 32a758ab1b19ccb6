import Moo.Proofs.Machine.Keeps

/-!
# Journals

`Device.journaled d` is the device `d` with a journal in front of it: the reads that it answered,
with the answers, and the writes that it was asked for, in order. The journal changes nothing that
the device does.
-/

namespace Moo

/-- A read that was answered, or a write that was asked for. -/
inductive Transfer where
  | read (channel : Channel) (value : Int)
  | write (channel : Channel) (value : Int)
  deriving DecidableEq, Repr

def Transfer.Carried : Transfer → Prop
  | .read _ _ => True
  | .write channel value => channel.Carries value

/-- A device that also keeps a journal of what passes. -/
def Device.journaled {σ : Type} (d : Device σ) : Device (σ × Array Transfer) where
  read channel := fun (s, journal) =>
    match d.read channel s with
    | .ok n s => .ok n (s, journal.push (.read channel n))
    | .error e s => .error e (s, journal)
  write channel value := fun (s, journal) =>
    let journal := journal.push (.write channel value)
    match d.write channel value s with
    | .ok () s => .ok () (s, journal)
    | .error e s => .error e (s, journal)

end Moo
