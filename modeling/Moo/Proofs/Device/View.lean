import Moo.Proofs.Machine.Turn

/-!
# Views of devices

`d.View π d₀`: seen through `π`, the device `d` answers and fails like `d₀`. A record of the writes
and a journal are more to see, so every device is a view of itself with one of them in front. What
is true of the two kept together is carried by `Turn.on_keeps`: the record is the writes of the
journal.
-/

namespace Moo

variable {σ τ ω : Type} {α : Type}

/-! ## Views -/

def viewed {ε : Type} (π : τ → σ) : EStateM.Result ε τ α → EStateM.Result ε σ α
  | .ok a s => .ok a (π s)
  | .error e s => .error e (π s)

/-- Seen through `π`, the device `d` is `d₀`. -/
structure Device.View (π : τ → σ) (d : Device τ) (d₀ : Device σ) : Prop where
  read : ∀ channel s, d₀.read channel (π s) = viewed π (d.read channel s)
  write : ∀ channel value s, d₀.write channel value (π s) = viewed π (d.write channel value s)

namespace Device.View

variable {π : τ → σ} {d : Device τ} {d₀ : Device σ}

theorem on (h : d.View π d₀) (x : Turn α) (s : τ) : x.on d₀ (π s) = viewed π (x.on d s) := by
  cases x with
  | quiet a => rfl
  | reads channel next =>
    have hr := h.read channel s
    cases hd : d.read channel s <;> rw [hd] at hr <;> simp only [Turn.on, hd, hr, viewed]
  | writes channel value a =>
    have hw := h.write channel value s
    cases hd : d.write channel value s <;> rw [hd] at hw <;> simp only [Turn.on, hd, hw, viewed]
  | fails e => rfl

theorem recorded (d : Device σ) : d.recording.View Prod.fst d where
  read channel s := by
    unfold Device.recording
    cases hd : d.read channel s.1 <;> simp only [hd, viewed]
  write channel value s := by
    unfold Device.recording
    cases hd : d.write channel value s.1 <;> simp only [hd, viewed]

theorem journaled (d : Device σ) : d.journaled.View Prod.fst d where
  read channel s := by
    unfold Device.journaled
    cases hd : d.read channel s.1 <;> simp only [hd, viewed]
  write channel value s := by
    unfold Device.journaled
    cases hd : d.write channel value s.1 <;> simp only [hd, viewed]

theorem recording (h : d.View π d₀) :
    d.recording.View (fun p => (π p.1, p.2)) d₀.recording where
  read channel s := by
    have hr := h.read channel s.1
    unfold Device.recording
    cases hd : d.read channel s.1 <;> rw [hd] at hr <;> simp only [hd, hr, viewed]
  write channel value s := by
    have hw := h.write channel value s.1
    unfold Device.recording
    cases hd : d.write channel value s.1 <;> rw [hd] at hw <;> simp only [hd, hw, viewed]

end Device.View

/-! ## What a turn keeps of a device -/

def leftIn {ε : Type} : EStateM.Result ε σ α → σ
  | .ok _ s => s
  | .error _ s => s

theorem Turn.on_keeps {d : Device σ} {P : σ → Prop}
    (read : ∀ channel s, P s → P (leftIn (d.read channel s)))
    (write : ∀ channel value s, P s → P (leftIn (d.write channel value s))) (x : Turn α) {s : σ}
    (hs : P s) : P (leftIn (x.on d s)) := by
  cases x with
  | quiet a => exact hs
  | reads channel next =>
    have h := read channel s hs
    cases hd : d.read channel s <;> rw [hd] at h <;> simp only [Turn.on, hd] <;> exact h
  | writes channel value a =>
    have h := write channel value s hs
    cases hd : d.write channel value s <;> rw [hd] at h <;> simp only [Turn.on, hd] <;> exact h
  | fails e => exact hs

namespace Transfer

def output? : Transfer → Option Output
  | .read _ _ => none
  | .write channel value => some ⟨channel, value⟩

def outputs (journal : List Transfer) : List Output := journal.filterMap output?

theorem outputs_append (j k : List Transfer) : outputs (j ++ k) = outputs j ++ outputs k :=
  List.filterMap_append

end Transfer

/-- The record of a device with a journal is the writes of the journal. -/
def Tallied (s : (σ × Array Transfer) × Array Output) : Prop :=
  s.2.toList = Transfer.outputs s.1.2.toList

namespace Tallied

theorem pushRead {s s' : σ} {journal : Array Transfer} {record : Array Output} (channel : Channel)
    (n : Int) (h : Tallied ((s, journal), record)) :
    Tallied ((s', journal.push (.read channel n)), record) := by
  unfold Tallied at h ⊢
  rw [Array.toList_push, Transfer.outputs_append, ← h]
  exact (List.append_nil _).symm

theorem pushWrite {s s' : σ} {journal : Array Transfer} {record : Array Output} (channel : Channel)
    (value : Int) (h : Tallied ((s, journal), record)) :
    Tallied ((s', journal.push (.write channel value)), record.push ⟨channel, value⟩) := by
  unfold Tallied at h ⊢
  rw [Array.toList_push, Array.toList_push, Transfer.outputs_append, ← h]
  rfl

theorem on (d : Device σ) (x : Turn α) {s : (σ × Array Transfer) × Array Output}
    (hs : Tallied s) : Tallied (leftIn (x.on d.journaled.recording s)) := by
  refine x.on_keeps ?_ ?_ hs
  · intro channel ⟨⟨s, journal⟩, record⟩ h
    unfold Device.recording Device.journaled
    cases hd : d.read channel s with
    | ok n s' =>
      simp only [hd]
      exact h.pushRead channel n
    | error e s' =>
      simp only [hd]
      exact h
  · intro channel value ⟨⟨s, journal⟩, record⟩ h
    unfold Device.recording Device.journaled
    cases hd : d.write channel value s with
    | ok u s' =>
      simp only [hd]
      exact h.pushWrite channel value
    | error e s' =>
      simp only [hd]
      exact h.pushWrite channel value

end Tallied

end Moo
