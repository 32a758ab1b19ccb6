import Mathlib.Logic.Basic
import Moo.Device.Buffer
import Moo.Device.Console
import Moo.Proofs.Device.View

/-!
# Refilling devices

A device that has failed may be given more input and asked again. `Refilled R more x`: the action
`x` cannot tell apart states related by `R`; what it is served in some state it is served after the
refill `more` as well; and when it has failed, then asking it again after the refill comes to the
same as asking it in the first place with the refill at hand. A device whose reads and writes are of
this kind carries it to every turn (`Device.Refills.on`). Buffers and consoles are such devices, if
at a console the prompts are left out of sight.
-/

namespace Moo

variable {σ : Type} {ε α β : Type} {R : σ → σ → Prop} {more : σ → σ}

/-! ## Results that agree -/

/-- Both give the same or fail with the same fault, and leave related states. -/
inductive Agree (R : σ → σ → Prop) : EStateM.Result ε σ α → EStateM.Result ε σ α → Prop where
  | ok {a : α} {s t : σ} : R s t → Agree R (.ok a s) (.ok a t)
  | error {e : ε} {s t : σ} : R s t → Agree R (.error e s) (.error e t)

def given (f : α → β) : EStateM.Result ε σ α → EStateM.Result ε σ β
  | .ok a s => .ok (f a) s
  | .error e s => .error e s

theorem given_eq_ok {f : α → β} {x : EStateM.Result ε σ α} {b : β} {s : σ} :
    given f x = .ok b s ↔ ∃ a, x = .ok a s ∧ f a = b := by
  cases x with
  | ok a t =>
    constructor
    · intro h
      cases h
      exact ⟨a, rfl, rfl⟩
    · rintro ⟨a', h, rfl⟩
      cases h
      rfl
  | error e t => exact ⟨nofun, fun ⟨_, h, _⟩ => nomatch h⟩

theorem given_eq_error {f : α → β} {x : EStateM.Result ε σ α} {e : ε} {s : σ} :
    given f x = .error e s ↔ x = .error e s := by
  cases x with
  | ok a t => exact ⟨nofun, nofun⟩
  | error e' t => exact ⟨fun h => by cases h; rfl, fun h => by cases h; rfl⟩

namespace Agree

variable {x y z : EStateM.Result ε σ α} {a : α} {t : σ}

theorem refl (hR : Equivalence R) (x : EStateM.Result ε σ α) : Agree R x x := by
  cases x with
  | ok a s => exact .ok (hR.refl s)
  | error e s => exact .error (hR.refl s)

theorem trans (hR : Equivalence R) (h : Agree R x y) (h' : Agree R y z) : Agree R x z := by
  cases h with
  | ok hs =>
    cases h' with
    | ok ht => exact .ok (hR.trans hs ht)
  | error hs =>
    cases h' with
    | error ht => exact .error (hR.trans hs ht)

theorem map (h : Agree R x y) (f : α → β) : Agree R (given f x) (given f y) := by
  cases h with
  | ok hs => exact .ok hs
  | error hs => exact .error hs

theorem exists_ok (h : Agree R x (.ok a t)) : ∃ s, x = .ok a s ∧ R s t := by
  cases h with
  | ok hs => exact ⟨_, rfl, hs⟩

end Agree

/-! ## Asking again after a refill -/

/-- The refill adds to what the action is served, and makes up for a failure. -/
structure Refilled (R : σ → σ → Prop) (more : σ → σ) (x : EStateM ε σ α) : Prop where
  related : ∀ {s t}, R s t → Agree R (x s) (x t)
  served : ∀ {s a s'}, x s = .ok a s' → Agree R (x (more s)) (.ok a (more s'))
  again : ∀ {s e s'}, x s = .error e s' → Agree R (x (more s')) (x (more s))

theorem Refilled.map {x : EStateM ε σ α} (h : Refilled R more x) (f : α → β) :
    Refilled R more fun s => given f (x s) where
  related hst := (h.related hst).map f
  served hx := by
    obtain ⟨a, ha, rfl⟩ := given_eq_ok.mp hx
    exact (h.served ha).map f
  again hx := (h.again (given_eq_error.mp hx)).map f

/-- Every read and every write of the device can be asked again after the refill. -/
structure Device.Refills (d : Device σ) (R : σ → σ → Prop) (more : σ → σ) : Prop where
  equivalence : Equivalence R
  read : ∀ channel, Refilled R more (d.read channel)
  write : ∀ channel value, Refilled R more (d.write channel value)

namespace Turn

variable {d : Device σ}

theorem on_reads (channel : Channel) (next : Int → α) :
    (reads channel next).on d = fun s => given next (d.read channel s) := by
  funext s
  cases hr : d.read channel s <;> simp only [on, given, hr]

theorem on_writes (channel : Channel) (value : Int) (a : α) :
    (writes channel value a).on d = fun s => given (fun _ => a) (d.write channel value s) := by
  funext s
  cases hw : d.write channel value s <;> simp only [on, given, hw]

end Turn

/-- A turn asks its device once at most, so it can be made again after the refill. -/
theorem Device.Refills.on {d : Device σ} (h : d.Refills R more) (x : Turn α) :
    Refilled R more (x.on d) := by
  cases x with
  | quiet a =>
    refine ⟨.ok, ?_, nofun⟩
    intro s b s' hs
    cases hs
    exact .ok (h.equivalence.refl _)
  | reads channel next =>
    rw [Turn.on_reads]
    exact (h.read channel).map next
  | writes channel value a =>
    rw [Turn.on_writes]
    exact (h.write channel value).map _
  | fails e =>
    refine ⟨.error, nofun, ?_⟩
    intro s e' s' hs
    cases hs
    exact .error (h.equivalence.refl _)

/-! ## Devices that a failure leaves alone -/

structure Device.Unspoilt (d : Device σ) : Prop where
  read : ∀ {channel s e s'}, d.read channel s = .error e s' → s' = s
  write : ∀ {channel value s e s'}, d.write channel value s = .error e s' → s' = s

/-! ## Buffers -/

namespace Buffer

/-- More characters and more numbers behind those that are queued. -/
def fill (chars : List Nat) (numbers : List Int) (b : Buffer) : Buffer :=
  { b with chars := b.chars ++ chars, numbers := b.numbers ++ numbers }

variable {channel : Channel} {b : Buffer}

theorem read_cases (channel : Channel) (b : Buffer) :
    (∃ n b', read channel b = .ok n b' ∧
        ∀ chars numbers, read channel (b.fill chars numbers) = .ok n (b'.fill chars numbers)) ∨
      ∃ supply, read channel b = .error (.exhausted supply) b := by
  obtain ⟨chars, numbers, output⟩ := b
  cases channel with
  | char =>
    cases chars with
    | nil => exact .inr ⟨.character, rfl⟩
    | cons c rest => exact .inl ⟨c, ⟨rest, numbers, output⟩, rfl, fun _ _ => rfl⟩
  | byte =>
    cases numbers with
    | nil => exact .inr ⟨.integer, rfl⟩
    | cons n rest => exact .inl ⟨n, ⟨chars, rest, output⟩, rfl, fun _ _ => rfl⟩

theorem unspoilt : device.Unspoilt where
  read {channel b e b'} h := by
    obtain ⟨n, c, hr, -⟩ | ⟨supply, hr⟩ := read_cases channel b
    · cases hr.symm.trans h
    · cases hr.symm.trans h
      rfl
  write h := by cases h

theorem refills (chars : List Nat) (numbers : List Int) :
    device.Refills Eq (fill chars numbers) where
  equivalence := eq_equivalence
  read channel := by
    refine ⟨?_, ?_, ?_⟩
    · rintro s _ rfl
      exact .refl eq_equivalence _
    · intro b n b' h
      obtain ⟨n', c, hr, hmore⟩ | ⟨supply, hr⟩ := read_cases channel b
      · cases hr.symm.trans h
        show Agree Eq (read channel _) _
        rw [hmore]
        exact .refl eq_equivalence _
      · cases hr.symm.trans h
    · intro b e b' h
      rw [unspoilt.read h]
      exact .refl eq_equivalence _
  write channel value := by
    refine ⟨?_, ?_, nofun⟩
    · rintro s _ rfl
      exact .refl eq_equivalence _
    · intro b u b' h
      cases h
      exact .refl eq_equivalence _

end Buffer

/-! ## Consoles -/

namespace Console

def fill (lines : List (List Char)) (c : Console) : Console := { c with lines := c.lines ++ lines }

/-- The same lines are left and the same was written, whatever was prompted. -/
def Alike (c c' : Console) : Prop := c.lines = c'.lines ∧ c.outs = c'.outs

theorem alike_equivalence : Equivalence Alike where
  refl _ := ⟨rfl, rfl⟩
  symm h := ⟨h.1.symm, h.2.symm⟩
  trans h h' := ⟨h.1.trans h'.1, h.2.trans h'.2⟩

variable {channel : Channel} {lines left more : List (List Char)} {prompts shown : String} {n : Int}

theorem ask_prompts (channel : Channel) (lines : List (List Char)) (prompts prompts' : String) :
    ∃ answer left shown shown', ask channel lines prompts = (answer, left, shown) ∧
      ask channel lines prompts' = (answer, left, shown') := by
  induction lines generalizing prompts prompts' with
  | nil => exact ⟨none, [], _, _, rfl, rfl⟩
  | cons line rest ih =>
    unfold ask
    cases accept channel line with
    | some n => exact ⟨some n, rest, _, _, rfl, rfl⟩
    | none => exact ih _ _

theorem ask_append (h : ask channel lines prompts = (some n, left, shown)) :
    ask channel (lines ++ more) prompts = (some n, left ++ more, shown) := by
  induction lines generalizing prompts with
  | nil => cases h
  | cons line rest ih =>
    rw [List.cons_append]
    unfold ask at h ⊢
    cases ha : accept channel line with
    | some k =>
      rw [ha] at h
      cases h
      rfl
    | none =>
      rw [ha] at h
      exact ih h

theorem ask_none (h : ask channel lines prompts = (none, left, shown)) (more : List (List Char)) :
    left = [] ∧ ∃ prompts', ask channel (lines ++ more) prompts = ask channel more prompts' := by
  induction lines generalizing prompts with
  | nil =>
    cases h
    exact ⟨rfl, prompts, rfl⟩
  | cons line rest ih =>
    rw [List.cons_append]
    unfold ask at h
    cases ha : accept channel line with
    | some k =>
      rw [ha] at h
      cases h
    | none =>
      rw [ha] at h
      obtain ⟨hleft, prompts', hask⟩ := ih h
      refine ⟨hleft, prompts', ?_⟩
      rw [ask, ha]
      exact hask

theorem read_of_some {c : Console} (h : ask channel c.lines c.prompts = (some n, left, shown)) :
    read channel c = .ok n ⟨left, c.outs, shown⟩ := by
  unfold read
  dsimp only
  rw [h]

theorem read_of_none {c : Console} (h : ask channel c.lines c.prompts = (none, left, shown)) :
    read channel c = .error (.exhausted .console) ⟨left, c.outs, shown⟩ := by
  unfold read
  dsimp only
  rw [h]

theorem read_alike {c c' : Console} (h : c.Alike c') :
    Agree Alike (read channel c) (read channel c') := by
  obtain ⟨answer, left, shown, shown', ha, ha'⟩ := ask_prompts channel c.lines c.prompts c'.prompts
  rw [h.1] at ha'
  cases answer with
  | some n =>
    rw [read_of_some ha, read_of_some ha']
    exact .ok ⟨rfl, h.2⟩
  | none =>
    rw [read_of_none ha, read_of_none ha']
    exact .error ⟨rfl, h.2⟩

theorem write_cases (channel : Channel) (value : Int) (c : Console) :
    (∃ text, ∀ lines prompts, write channel value ⟨lines, c.outs, prompts⟩ =
        .ok () ⟨lines, c.outs ++ text, prompts⟩) ∨
      ∃ e, ∀ lines prompts, write channel value ⟨lines, c.outs, prompts⟩ =
        .error e ⟨lines, c.outs, prompts⟩ := by
  cases ht : Output.text ⟨channel, value⟩ with
  | ok text =>
    refine .inl ⟨text, fun lines prompts => ?_⟩
    unfold write
    rw [ht]
  | error e =>
    refine .inr ⟨e, fun lines prompts => ?_⟩
    unfold write
    rw [ht]

theorem read_refilled (channel : Channel) (lines : List (List Char)) :
    Refilled Alike (fill lines) (read channel) := by
  refine ⟨read_alike, ?_, ?_⟩
  · intro c n c' h
    rcases ha : ask channel c.lines c.prompts with ⟨_ | k, left, shown⟩
    · cases (read_of_none ha).symm.trans h
    · cases (read_of_some ha).symm.trans h
      rw [read_of_some (c := c.fill lines) (ask_append ha)]
      exact .ok ⟨rfl, rfl⟩
  · intro c e c' h
    rcases ha : ask channel c.lines c.prompts with ⟨_ | k, left, shown⟩
    · cases (read_of_none ha).symm.trans h
      obtain ⟨rfl, prompts, hask⟩ := ask_none ha lines
      have hfill : read channel (c.fill lines) = read channel ⟨lines, c.outs, prompts⟩ := by
        unfold read fill
        dsimp only
        rw [hask]
      rw [hfill]
      exact read_alike ⟨rfl, rfl⟩
    · cases (read_of_some ha).symm.trans h

theorem write_refilled (channel : Channel) (value : Int) (lines : List (List Char)) :
    Refilled Alike (fill lines) (write channel value) := by
  refine ⟨?_, ?_, ?_⟩
  · rintro c ⟨lines', outs', prompts'⟩ ⟨rfl, rfl⟩
    obtain ⟨text, hw⟩ | ⟨e, hw⟩ := write_cases channel value c
    · rw [hw c.lines prompts', hw c.lines c.prompts]
      exact .ok ⟨rfl, rfl⟩
    · rw [hw c.lines prompts', hw c.lines c.prompts]
      exact .error ⟨rfl, rfl⟩
  · intro c u c' h
    obtain ⟨text, hw⟩ | ⟨e, hw⟩ := write_cases channel value c
    · cases (hw c.lines c.prompts).symm.trans h
      rw [show write channel value (c.fill lines) = _ from hw (c.lines ++ lines) c.prompts]
      exact .ok ⟨rfl, rfl⟩
    · cases (hw c.lines c.prompts).symm.trans h
  · intro c e c' h
    obtain ⟨text, hw⟩ | ⟨e', hw⟩ := write_cases channel value c
    · cases (hw c.lines c.prompts).symm.trans h
    · cases (hw c.lines c.prompts).symm.trans h
      exact .refl alike_equivalence _

theorem refills (lines : List (List Char)) : device.Refills Alike (fill lines) :=
  ⟨alike_equivalence, (read_refilled · lines), (write_refilled · · lines)⟩

end Console

end Moo
