import Moo.Device.Layered
import Moo.Proofs.Device.View

/-!
# Sequences of calls

Whoever uses a device may go on after a fault. `d.transcript asks s` is what `d` replies to a
sequence of calls, each with its reply, and `d.after asks s` is the state in which it is left. If a
device serves some calls like another one, and the rest of them out of its sight, then the calls and
replies that concern the other one are those of the other one alone (`Device.Shows.transcript`).
-/

namespace Moo

variable {σ τ ω : Type} {α : Type}

inductive Ask where
  | read (channel : Channel)
  | write (channel : Channel) (value : Int)
  deriving DecidableEq, Repr

namespace Ask

def operation : Ask → Operation
  | .read channel => .read channel
  | .write channel _ => .write channel

def output? : Ask → Option Output
  | .read _ => none
  | .write channel value => some ⟨channel, value⟩

end Ask

/-- What comes back from a call: what was read, nothing for a write, or a fault. -/
abbrev Response := Except Fault (Option Int)

def replying (f : α → Option Int) (x : EStateM Fault σ α) (s : σ) : Response × σ :=
  match x s with
  | .ok a s => (.ok (f a), s)
  | .error e s => (.error e, s)

namespace Device

theorem ext {d d' : Device σ} (read : ∀ channel, d.read channel = d'.read channel)
    (write : ∀ channel, d.write channel = d'.write channel) : d = d' := by
  cases d
  cases d'
  rw [mk.injEq]
  exact ⟨funext read, funext write⟩

def serve (d : Device σ) : Ask → σ → Response × σ
  | .read channel => replying some (d.read channel)
  | .write channel value => replying (fun _ => none) (d.write channel value)

def transcript (d : Device σ) : List Ask → σ → List (Ask × Response)
  | [], _ => []
  | a :: rest, s => (a, (d.serve a s).1) :: d.transcript rest (d.serve a s).2

def after (d : Device σ) : List Ask → σ → σ
  | [], s => s
  | a :: rest, s => d.after rest (d.serve a s).2

/-! ## Some of the calls -/

/-- Seen through `π`, the device `d` serves the selected calls like `d₀`, and nothing is seen of the
others. -/
structure Shows (selected : Ask → Bool) (π : τ → σ) (d : Device τ) (d₀ : Device σ) : Prop where
  serve : ∀ {a}, selected a = true → ∀ s,
    d₀.serve a (π s) = ((d.serve a s).1, π (d.serve a s).2)
  ignore : ∀ {a}, selected a = false → ∀ s, π (d.serve a s).2 = π s

namespace Shows

variable {selected : Ask → Bool} {π : τ → σ} {d : Device τ} {d₀ : Device σ}

theorem transcript (h : d.Shows selected π d₀) (asks : List Ask) (s : τ) :
    (d.transcript asks s).filter (fun x => selected x.1) =
      d₀.transcript (asks.filter selected) (π s) := by
  induction asks generalizing s with
  | nil => rfl
  | cons a rest ih =>
    rw [Device.transcript, List.filter_cons, List.filter_cons]
    cases ha : selected a with
    | true =>
      rw [if_pos rfl, if_pos rfl, ih, Device.transcript, h.serve ha]
    | false =>
      rw [if_neg Bool.false_ne_true, if_neg Bool.false_ne_true, ih, h.ignore ha]

theorem after (h : d.Shows selected π d₀) (asks : List Ask) (s : τ) :
    π (d.after asks s) = d₀.after (asks.filter selected) (π s) := by
  induction asks generalizing s with
  | nil => rfl
  | cons a rest ih =>
    rw [Device.after, List.filter_cons, ih]
    cases ha : selected a with
    | true => rw [if_pos rfl, Device.after, h.serve ha]
    | false => rw [if_neg Bool.false_ne_true, h.ignore ha]

theorem transcript_eq (h : d.Shows (fun _ => true) π d₀) (asks : List Ask) (s : τ) :
    d.transcript asks s = d₀.transcript asks (π s) := by
  have hall := h.transcript asks s
  rwa [List.filter_eq_self.mpr fun _ _ => rfl, List.filter_eq_self.mpr fun _ _ => rfl] at hall

theorem after_eq (h : d.Shows (fun _ => true) π d₀) (asks : List Ask) (s : τ) :
    π (d.after asks s) = d₀.after asks (π s) := by
  have hall := h.after asks s
  rwa [List.filter_eq_self.mpr fun _ _ => rfl] at hall

end Shows

/-! ## Views -/

theorem View.replying {π : τ → σ} {f : α → Option Int} {x : EStateM Fault τ α}
    {x₀ : EStateM Fault σ α} {s : τ} (h : x₀ (π s) = viewed π (x s)) :
    Moo.replying f x₀ (π s) = ((Moo.replying f x s).1, π (Moo.replying f x s).2) := by
  unfold Moo.replying
  rw [h]
  cases x s <;> rfl

theorem View.shows {π : τ → σ} {d : Device τ} {d₀ : Device σ} (h : d.View π d₀) :
    d.Shows (fun _ => true) π d₀ where
  serve {a} _ s := by
    cases a with
    | read channel => exact replying (h.read channel s)
    | write channel value => exact replying (h.write channel value s)
  ignore ha := nomatch ha

/-! ## Records of the writes -/

theorem transcript_recording (d : Device σ) (asks : List Ask) (s : σ × Array Output) :
    d.recording.transcript asks s = d.transcript asks s.1 :=
  (View.recorded d).shows.transcript_eq asks s

theorem serve_recording (d : Device σ) (a : Ask) (s : σ × Array Output) :
    (d.recording.serve a s).2.2 = s.2 ++ a.output?.toList.toArray := by
  cases a with
  | read channel =>
    show (Moo.replying some (d.recording.read channel) s).2.2 = _
    unfold Moo.replying Device.recording
    cases hd : d.read channel s.1 <;> simp [hd, Ask.output?]
  | write channel value =>
    show (Moo.replying (fun _ => none) (d.recording.write channel value) s).2.2 = _
    unfold Moo.replying Device.recording
    cases hd : d.write channel value s.1 <;> simp [hd, Ask.output?]

theorem after_recording (d : Device σ) (asks : List Ask) (s : σ × Array Output) :
    d.recording.after asks s = (d.after asks s.1, s.2 ++ (asks.filterMap Ask.output?).toArray) := by
  refine Prod.ext ((View.recorded d).shows.after_eq asks s) ?_
  induction asks generalizing s with
  | nil => exact (Array.append_empty).symm
  | cons a rest ih =>
    rw [after, ih, serve_recording]
    cases a <;> simp [Ask.output?, List.filterMap_cons]

end Device

end Moo
