import Moo.Proofs.Audience.Closure
import Moo.Proofs.Audience.Roll

/-!
# Hosts that keep a roll

`Roll.announce who react e` calls those who are subscribed when it begins, `who` telling this by the
state of the audience, and puts down on the roll how it goes. `Engaged d who x` says that `x` is
made of what subscribers can do who keep the roll: they subscribe, change their state otherwise,
raise and catch faults, and do to the machine whatever can be done to it, before handlers that
behave likewise.

What is done so leaves a roll that is orderly (`Engaged.grows`). The rolls of an announcement under
way are put together call by call (`Roll.Goes`).
-/

namespace Moo

open Act

variable {σ ω η : Type} {α : Type}

structure Roll (η ω : Type) where
  marks : List (Mark η)
  own : ω

namespace Roll

def blank (own : ω) : Roll η ω := ⟨[], own⟩

def add (mark : Mark η) (a : Roll η ω) : Roll η ω := { a with marks := a.marks ++ [mark] }

def openings (a : Roll η ω) : Nat := Mark.openings a.marks

end Roll

def World.marked (mark : Mark η) (w : World σ (Roll η ω)) : World σ (Roll η ω) :=
  { w with audience := w.audience.add mark }

/-- Put down how something ends, cut short or not. -/
def Act.marking (mark : Option Fault → Mark η) (x : Act σ (Roll η ω) α) : Act σ (Roll η ω) α :=
  fun w =>
    match x w with
    | .ok a w => .ok a (w.marked (mark none))
    | .error f w => .error f (w.marked (mark (some f)))

section

variable {mark : Option Fault → Mark η} {x : Act σ (Roll η ω) α} {w v : World σ (Roll η ω)}

theorem Act.marking_congr {y : Act σ (Roll η ω) α} (h : x w = y v) :
    x.marking mark w = y.marking mark v := by
  unfold marking
  rw [h]

theorem Act.marking_of_ok {a : α} (h : x w = .ok a v) :
    x.marking mark w = .ok a (v.marked (mark none)) := by
  unfold marking
  rw [h]

theorem Act.marking_final_own :
    ((x.marking mark).final w).audience.own = (x.final w).audience.own := by
  unfold final marking
  cases x w <;> rfl

theorem Act.marking_of_error {f : Fault} (h : x w = .error f v) :
    x.marking mark w = .error f (v.marked (mark (some f))) := by
  unfold marking
  rw [h]

end

namespace Roll

def call (react : Nat → Event → Act σ (Roll η ω) Unit) (n : Nat) (e : Event) (p : Nat × η) :
    Act σ (Roll η ω) Unit :=
  fun w => (react p.1 e).marking (.returned n p.1) (w.marked (.called n p.1 p.2 e))

/-- Announce an event to those who are subscribed to it now. -/
def announce (who : ω → List (Subscription η)) (react : Nat → Event → Act σ (Roll η ω) Unit)
    (e : Event) : Act σ (Roll η ω) Unit := fun w =>
  ((due (who w.audience.own) e.kind).forM (call react w.audience.openings e)).marking
    (.closed w.audience.openings) (w.marked (.opened w.audience.openings e))

end Roll

/-- A host that keeps a roll; `react` is what the handler at a position does when it is called. -/
def Host.enrolled (d : Device σ) (who : ω → List (Subscription η))
    (react : Nat → Event → Act σ (Roll η ω) Unit) : Host σ (Roll η ω) where
  device := d
  announce := Roll.announce who react

/-! ## What subscribers do -/

/-- Subscribe: put it down, with a change of state that adds the subscription. -/
def Act.join (s : Subscription η) (f : ω → ω) : Act σ (Roll η ω) Unit := fun w =>
  .ok () { w with audience := ⟨w.audience.marks ++ [.joined s], f w.audience.own⟩ }

def Act.noteOwn (f : ω → ω) : Act σ (Roll η ω) Unit := fun w =>
  .ok () { w with audience := { w.audience with own := f w.audience.own } }

/-- The action is made of what subscribers can do who keep the roll. -/
inductive Engaged (d : Device σ) (who : ω → List (Subscription η)) :
    {α : Type} → Act σ (Roll η ω) α → Prop where
  /-- Look at the world. -/
  | look {α : Type} (f : World σ (Roll η ω) → α) : Engaged d who fun w => .ok (f w) w
  /-- Change their own state, but not who is subscribed to what. -/
  | note (f : ω → ω) : (∀ a, who (f a) = who a) → Engaged d who (noteOwn f)
  | join (s : Subscription η) (f : ω → ω) : (∀ a, who (f a) = who a ++ [s]) →
      Engaged d who (Act.join s f)
  | raise {α : Type} (e : Fault) : Engaged d who (throw e : Act σ (Roll η ω) α)
  | bind {α β : Type} {x : Act σ (Roll η ω) α} {f : α → Act σ (Roll η ω) β} :
      Engaged d who x → (∀ a, Engaged d who (f a)) → Engaged d who (x >>= f)
  | recover {α : Type} {x : Act σ (Roll η ω) α} {f : Fault → Act σ (Roll η ω) α} :
      Engaged d who x → (∀ e, Engaged d who (f e)) → Engaged d who (x.recover f)
  /-- Do something to the machine, which announces events to handlers that behave likewise. -/
  | deed {react : Nat → Event → Act σ (Roll η ω) Unit} (deed : Deed) :
      (∀ i e, Engaged d who (react i e)) → Engaged d who ((Host.enrolled d who react).does deed)

theorem Engaged.closed (d : Device σ) (who : ω → List (Subscription η)) :
    Closed fun (α : Type) (x : Act σ (Roll η ω) α) => Engaged d who x where
  look := .look
  throw := .raise
  bind := .bind
  recover := .recover

/-- The action only subscribes, as often as it likes. -/
inductive Subscribing (who : ω → List (Subscription η)) : {α : Type} → Act σ (Roll η ω) α → Prop where
  | look {α : Type} (f : World σ (Roll η ω) → α) : Subscribing who fun w => .ok (f w) w
  | note (f : ω → ω) : (∀ a, who (f a) = who a) → Subscribing who (noteOwn f)
  | join (s : Subscription η) (f : ω → ω) : (∀ a, who (f a) = who a ++ [s]) →
      Subscribing who (Act.join s f)
  | bind {α β : Type} {x : Act σ (Roll η ω) α} {f : α → Act σ (Roll η ω) β} :
      Subscribing who x → (∀ a, Subscribing who (f a)) → Subscribing who (x >>= f)

/-! ## How rolls grow -/

namespace Roll

variable {who : ω → List (Subscription η)} {a b c : Roll η ω} {n : Nat} {e : Event} {p : Nat × η}
  {rest : List (Nat × η)}

theorem openings_add {mark : Mark η} (h : mark.isOpened = false) :
    (a.add mark).openings = a.openings := by
  rw [openings, add, Mark.openings_append, Mark.openings_cons_of_false h]
  rfl

theorem openings_add_opened (a : Roll η ω) (n : Nat) (e : Event) :
    (a.add (.opened n e)).openings = a.openings + 1 := by
  rw [openings, add, Mark.openings_append, Mark.openings_opened]
  rfl

theorem openings_eq_add {marks : List (Mark η)} (h : b.marks = a.marks ++ marks) :
    b.openings = a.openings + Mark.openings marks := by
  rw [openings, h, Mark.openings_append]
  rfl

/-- The one roll comes from the other by orderly marks. -/
def Grown (who : ω → List (Subscription η)) (a b : Roll η ω) : Prop :=
  ∃ marks, b.marks = a.marks ++ marks ∧ who b.own = who a.own ++ Mark.joins marks ∧
    Mark.Orderly a.openings (who a.own) marks

theorem Grown.refl (a : Roll η ω) : Grown who a a :=
  ⟨[], (List.append_nil _).symm, (List.append_nil _).symm, .nil⟩

theorem Grown.trans (hab : Grown who a b) (hbc : Grown who b c) : Grown who a c := by
  obtain ⟨left, hl, hlw, hlo⟩ := hab
  obtain ⟨right, hr, hrw, hro⟩ := hbc
  refine ⟨left ++ right, by rw [hr, hl, List.append_assoc], ?_, hlo.append ?_⟩
  · rw [hrw, hlw, Mark.joins_append, List.append_assoc]
  · rwa [openings, hl, Mark.openings_append, hlw] at hro

theorem Grown.openings_le (h : Grown who a b) : a.openings ≤ b.openings := by
  obtain ⟨marks, hb, -⟩ := h
  rw [openings_eq_add hb]
  exact Nat.le_add_right _ _

theorem Grown.note {f : ω → ω} (hf : who (f a.own) = who a.own) :
    Grown who a { a with own := f a.own } :=
  ⟨[], (List.append_nil _).symm, hf.trans (List.append_nil _).symm, .nil⟩

theorem Grown.join {s : Subscription η} {f : ω → ω} (hf : who (f a.own) = who a.own ++ [s]) :
    Grown who a ⟨a.marks ++ [.joined s], f a.own⟩ := ⟨[.joined s], rfl, hf, .joined s⟩

/-- The one roll comes from the other while an announcement that has begun calls those due and
ends. -/
def Goes (who : ω → List (Subscription η)) (n : Nat) (e : Event) (l : List (Nat × η))
    (a b : Roll η ω) : Prop :=
  ∃ marks fault, b.marks = a.marks ++ marks ∧ who b.own = who a.own ++ Mark.joins marks ∧
    Course n e l fault (Mark.ofNumber n marks) ∧
    Mark.Orderly a.openings (who a.own) (Mark.exceptNumber n marks)

theorem openings_le_add (a : Roll η ω) (mark : Mark η) : a.openings ≤ (a.add mark).openings := by
  rw [openings_eq_add (rfl : (a.add mark).marks = a.marks ++ [mark])]
  exact Nat.le_add_right _ _

theorem Goes.finished (a : Roll η ω) : Goes who n e [] a (a.add (.closed n none)) := by
  refine ⟨[.closed n none], none, rfl, (List.append_nil _).symm, ?_, ?_⟩
  · rw [Mark.ofNumber_cons_self rfl]
    exact .finished
  · rw [Mark.exceptNumber_cons_self rfl]
    exact .nil

theorem Goes.returned (hn : n < a.openings) (hab : Grown who (a.add (.called n p.1 p.2 e)) b)
    (hbc : Goes who n e rest (b.add (.returned n p.1 none)) c) : Goes who n e (p :: rest) a c := by
  obtain ⟨inner, hb, hbw, hbo⟩ := hab
  obtain ⟨marks, fault, hc, hcw, hcourse, hco⟩ := hbc
  rw [openings_add rfl] at hbo hco
  have hne := hbo.number_ne (.inl hn)
  refine ⟨.called n p.1 p.2 e :: (inner ++ .returned n p.1 none :: marks), fault, ?_, ?_, ?_, ?_⟩
  · rw [hc]
    simp [add, hb]
  · rw [hcw, Mark.joins_call, ← List.append_assoc]
    exact congrArg (· ++ _) hbw
  · rw [Mark.ofNumber_call hne]
    exact .returned hcourse
  · rw [Mark.exceptNumber_call hne]
    refine hbo.append ?_
    rw [openings_eq_add hb, openings_add rfl] at hco
    exact hbw ▸ hco

theorem Goes.raised {f : Fault} (hn : n < a.openings)
    (hab : Grown who (a.add (.called n p.1 p.2 e)) b) :
    Goes who n e (p :: rest) a ((b.add (.returned n p.1 (some f))).add (.closed n (some f))) := by
  obtain ⟨inner, hb, hbw, hbo⟩ := hab
  rw [openings_add rfl] at hbo
  have hne := hbo.number_ne (.inl hn)
  refine ⟨.called n p.1 p.2 e :: (inner ++ [.returned n p.1 (some f), .closed n (some f)]), some f,
    ?_, ?_, ?_, ?_⟩
  · simp [add, hb]
  · rw [Mark.joins_call]
    exact hbw.trans (congrArg (_ ++ ·) (List.append_nil _).symm)
  · rw [Mark.ofNumber_call hne, Mark.ofNumber_cons_self rfl]
    exact .raised
  · rw [Mark.exceptNumber_call hne, Mark.exceptNumber_cons_self rfl]
    exact hbo.append .nil

theorem Goes.grown (h : Goes who a.openings e (due (who a.own) e.kind)
    (a.add (.opened a.openings e)) b) : Grown who a b := by
  obtain ⟨marks, fault, hb, hbw, hcourse, hbo⟩ := h
  refine ⟨.opened a.openings e :: marks, ?_, ?_, ?_⟩
  · rw [hb]
    simp [add]
  · rw [Mark.joins_cons_of_none rfl]
    exact hbw
  · rw [openings_add_opened] at hbo
    exact .opened hcourse hbo

variable {react : Nat → Event → Act σ (Roll η ω) Unit}

/-- An announcement under way calls those due and ends, if what each does leaves a grown roll. -/
theorem calls_go (hr : ∀ i e a, Keeps (fun w => Grown who a w.audience) (react i e)) (n : Nat)
    (e : Event) (l : List (Nat × η)) : ∀ w : World σ (Roll η ω), n < w.audience.openings →
      Goes who n e l w.audience
        (((l.forM (call react n e)).marking (.closed n)).final w).audience := by
  induction l with
  | nil => exact fun w _ => .finished w.audience
  | cons p rest ih =>
    intro w hn
    have hcall := hr p.1 e _ (w.marked (.called n p.1 p.2 e)) (.refl _)
    cases hx : react p.1 e (w.marked (.called n p.1 p.2 e)) with
    | ok u v =>
      rw [final_of_ok hx] at hcall
      have hone : call react n e p w = .ok u (v.marked (.returned n p.1 none)) := marking_of_ok hx
      have hopen : n < (v.marked (.returned n p.1 none)).audience.openings :=
        calc n < w.audience.openings := hn
          _ ≤ (w.marked (.called n p.1 p.2 e)).audience.openings := openings_le_add _ _
          _ ≤ v.audience.openings := hcall.openings_le
          _ ≤ (v.marked (.returned n p.1 none)).audience.openings := openings_le_add _ _
      rw [final_congr (marking_congr (forM_cons_of_ok hone rest))]
      exact .returned hn hcall (ih _ hopen)
    | error f v =>
      rw [final_of_error hx] at hcall
      have hone : call react n e p w = .error f (v.marked (.returned n p.1 (some f))) :=
        marking_of_error hx
      rw [final_of_error (marking_of_error (forM_cons_of_error hone rest))]
      exact .raised hn hcall

/-- Announcing an event leaves a grown roll, if what each handler does leaves one. -/
theorem announce_grows (hr : ∀ i e a, Keeps (fun w => Grown who a w.audience) (react i e)) (e : Event)
    (w : World σ (Roll η ω)) : Grown who w.audience ((announce who react e).final w).audience := by
  refine Goes.grown (calls_go hr w.audience.openings e _ (w.marked (.opened _ e)) ?_)
  exact (openings_add_opened w.audience _ e).symm ▸ Nat.lt_succ_self _

end Roll

variable {d : Device σ} {who : ω → List (Subscription η)}

/-- Whatever subscribers do leaves a grown roll. -/
theorem Engaged.grows {x : Act σ (Roll η ω) α} (hx : Engaged d who x) :
    ∀ a, Keeps (fun w => Roll.Grown who a w.audience) x := by
  -- the handlers before which a deed is done are part of it, so the induction reaches them too
  induction hx with
  | look f => exact fun _ _ h => h
  | note f hf => exact fun _ w h => h.trans (.note (hf w.audience.own))
  | join s f hf => exact fun _ w h => h.trans (.join (hf w.audience.own))
  | raise e => exact fun _ => .throw e
  | bind _ _ ihx ihf => exact fun a => .bind (ihx a) fun b => ihf b a
  | recover _ _ ihx ihf => exact fun a => .recover (ihx a) fun e => ihf e a
  | deed deed _ ih =>
    exact fun a => Host.does_keeps_audience
      (fun e w (h : Roll.Grown who a w.audience) => h.trans (Roll.announce_grows ih e w)) deed

/-! ## Handlers that only subscribe -/

/-- Only subscribing is not cut short and leads to no announcement. -/
theorem Subscribing.apply {x : Act σ (Roll η ω) α} (hx : Subscribing who x) :
    ∀ w, ∃ a v marks, x w = .ok a v ∧ v.audience.marks = w.audience.marks ++ marks ∧
      ∀ y ∈ marks, y.number? = none := by
  induction hx with
  | look f => exact fun w => ⟨f w, w, [], rfl, (List.append_nil _).symm, nofun⟩
  | note f _ => exact fun w => ⟨(), _, [], rfl, (List.append_nil _).symm, nofun⟩
  | join s f _ => exact fun w => ⟨(), _, [.joined s], rfl, rfl, by simp [Mark.number?]⟩
  | bind _ _ ihx ihf =>
    intro w
    obtain ⟨a, u, left, hx, hl, hjoins⟩ := ihx w
    obtain ⟨b, v, right, hf, hr, hjoins'⟩ := ihf a u
    refine ⟨b, v, left ++ right, (bind_of_ok hx _).trans hf, ?_, fun y hy => ?_⟩
    · rw [hr, hl, List.append_assoc]
    · exact (List.mem_append.mp hy).elim (hjoins y) (hjoins' y)

namespace Roll

variable {react : Nat → Event → Act σ (Roll η ω) Unit}

theorem calls_of_subscribing (hr : ∀ i e, Subscribing who (react i e)) (n : Nat) (e : Event)
    (l : List (Nat × η)) : ∀ w : World σ (Roll η ω), ∃ v marks,
      (l.forM (call react n e)).marking (.closed n) w = .ok () v ∧
      v.audience.marks = w.audience.marks ++ marks ∧ Course n e l none (Mark.ofNumber n marks) ∧
      ∀ y ∈ marks, y.number? = none ∨ y.number? = some n := by
  induction l with
  | nil =>
    refine fun w => ⟨_, [.closed n none], rfl, rfl, ?_, by simp [Mark.number?]⟩
    rw [Mark.ofNumber_cons_self rfl]
    exact .finished
  | cons p rest ih =>
    intro w
    obtain ⟨_, u, inner, hx, hu, hjoins⟩ := (hr p.1 e).apply (w.marked (.called n p.1 p.2 e))
    have hone : call react n e p w = .ok () (u.marked (.returned n p.1 none)) := marking_of_ok hx
    obtain ⟨v, marks, hrest, hv, hcourse, hnumbers⟩ := ih (u.marked (.returned n p.1 none))
    refine ⟨v, .called n p.1 p.2 e :: (inner ++ .returned n p.1 none :: marks),
      (marking_congr (forM_cons_of_ok hone rest)).trans hrest, ?_, ?_, ?_⟩
    · rw [hv]
      simp [World.marked, add, hu]
    · rw [Mark.ofNumber_call fun y hy => by simp [hjoins y hy]]
      exact .returned hcourse
    · intro y hy
      simp only [List.mem_cons, List.mem_append] at hy
      obtain rfl | hy | rfl | hy := hy
      · exact .inr rfl
      · exact .inl (hjoins y hy)
      · exact .inr rfl
      · exact hnumbers y hy

/-- An announcement before handlers that only subscribe calls those due when it begins, however many
they subscribe, and nothing else is announced meanwhile. -/
theorem announce_of_subscribing (hr : ∀ i e, Subscribing who (react i e)) (e : Event)
    (w : World σ (Roll η ω)) : ∃ v marks, announce who react e w = .ok () v ∧
      v.audience.marks = w.audience.marks ++ .opened w.audience.openings e :: marks ∧
      Course w.audience.openings e (due (who w.audience.own) e.kind) none
        (Mark.ofNumber w.audience.openings marks) ∧
      ∀ y ∈ marks, y.number? = none ∨ y.number? = some w.audience.openings := by
  obtain ⟨v, marks, hv, hmarks, h⟩ := calls_of_subscribing hr w.audience.openings e
    (due (who w.audience.own) e.kind) (w.marked (.opened w.audience.openings e))
  refine ⟨v, marks, hv, ?_, h⟩
  rw [hmarks]
  simp [World.marked, add]

end Roll

end Moo
