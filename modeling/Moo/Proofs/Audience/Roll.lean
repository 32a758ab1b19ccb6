import Mathlib.Data.List.Basic
import Moo.Fault
import Moo.Machine.Event

/-!
# Rolls

A roll holds, mark by mark, who subscribes and how each announcement goes: its beginning, the
handlers that it calls, how each returns, and its end. Announcements have numbers in the order in
which they begin. They may be nested, so the marks of one stand scattered among those of others.

`Course n e due fault marks` tells the marks of one announcement by who was due when it began.
`Mark.Orderly c subs marks` says that every announcement among the marks, the first of which has the
number `c`, goes its course for those subscribed when it begins: `subs` and those who joined before.
Orderly marks can be put one behind the other (`Orderly.append`), and around them an announcement in
whose course they were made (`Orderly.opened`).
-/

namespace Moo

variable {η : Type}

structure Subscription (η : Type) where
  kind : EventKind
  handler : η
  deriving DecidableEq, Repr

/-- What a roll tells. A handler stands with its position in the order of subscription. -/
inductive Mark (η : Type) where
  | joined (s : Subscription η)
  /-- An announcement begins. -/
  | opened (number : Nat) (e : Event)
  /-- It calls a handler with an event. -/
  | called (number position : Nat) (handler : η) (e : Event)
  /-- The handler returns, or is cut short by a fault. -/
  | returned (number position : Nat) (fault : Option Fault)
  /-- The announcement ends, or is cut short by a fault. -/
  | closed (number : Nat) (fault : Option Fault)
  deriving DecidableEq, Repr

/-- The handlers subscribed to a kind of event, with their positions, in order of subscription. -/
def due (subs : List (Subscription η)) (kind : EventKind) : List (Nat × η) :=
  (subs.zipIdx.filter fun p => p.1.kind = kind).map fun p => (p.2, p.1.handler)

theorem mem_due {subs : List (Subscription η)} {kind : EventKind} {i : Nat} {handler : η} :
    (i, handler) ∈ due subs kind ↔ subs[i]? = some ⟨kind, handler⟩ := by
  simp only [due, List.mem_map, List.mem_filter, Prod.mk.injEq, decide_eq_true_eq, Prod.exists]
  constructor
  · rintro ⟨⟨k, g⟩, j, ⟨hmem, rfl⟩, rfl, rfl⟩
    exact List.mem_zipIdx_iff_getElem?.mp hmem
  · intro h
    exact ⟨_, i, ⟨List.mem_zipIdx_iff_getElem?.mpr h, rfl⟩, rfl, rfl⟩

theorem due_increasing (subs : List (Subscription η)) (kind : EventKind) :
    ((due subs kind).map Prod.fst).Pairwise (· < ·) := by
  have hrange : (subs.zipIdx.map Prod.snd).Pairwise (· < ·) := by
    rw [List.zipIdx_map_snd]
    exact List.pairwise_lt_range'
  unfold due
  rw [List.map_map]
  exact List.pairwise_map.mpr ((List.pairwise_map.mp hrange).filter _)

/-- The marks of an announcement behind its beginning: the handlers that were due are called one
after the other, each with the event, until one of them is cut short by a fault; that ends the
announcement too. -/
inductive Course (n : Nat) (e : Event) : List (Nat × η) → Option Fault → List (Mark η) → Prop where
  | finished : Course n e [] none [.closed n none]
  | returned {p : Nat × η} {rest : List (Nat × η)} {fault : Option Fault} {marks : List (Mark η)} :
      Course n e rest fault marks →
      Course n e (p :: rest) fault (.called n p.1 p.2 e :: .returned n p.1 none :: marks)
  | raised {p : Nat × η} {rest : List (Nat × η)} {f : Fault} :
      Course n e (p :: rest) (some f)
        [.called n p.1 p.2 e, .returned n p.1 (some f), .closed n (some f)]

theorem Course.opened_notMem {n k : Nat} {e e' : Event} {l : List (Nat × η)} {fault : Option Fault}
    {marks : List (Mark η)} (h : Course n e l fault marks) : .opened k e' ∉ marks := by
  induction h with
  | finished => simp
  | returned _ ih => simp [ih]
  | raised => simp

theorem Course.called {n k i : Nat} {e e' : Event} {handler : η} {l : List (Nat × η)}
    {fault : Option Fault} {marks : List (Mark η)} (h : Course n e l fault marks)
    (hmem : .called k i handler e' ∈ marks) : e' = e ∧ (i, handler) ∈ l := by
  induction h with
  | finished => simp at hmem
  | returned _ ih =>
    simp only [List.mem_cons, Mark.called.injEq, reduceCtorEq, false_or] at hmem
    obtain ⟨-, rfl, rfl, rfl⟩ | hmem := hmem
    · exact ⟨rfl, List.mem_cons_self⟩
    · exact ⟨(ih hmem).1, List.mem_cons_of_mem _ (ih hmem).2⟩
  | raised =>
    simp only [List.mem_cons, Mark.called.injEq, reduceCtorEq, List.not_mem_nil, or_false] at hmem
    obtain ⟨-, rfl, rfl, rfl⟩ := hmem
    exact ⟨rfl, List.mem_cons_self⟩

namespace Mark

def number? : Mark η → Option Nat
  | joined _ => none
  | opened n _ => some n
  | called n _ _ _ => some n
  | returned n _ _ => some n
  | closed n _ => some n

def joined? : Mark η → Option (Subscription η)
  | joined s => some s
  | _ => none

def isOpened : Mark η → Bool
  | opened _ _ => true
  | _ => false

def joins (marks : List (Mark η)) : List (Subscription η) := marks.filterMap joined?

def openings (marks : List (Mark η)) : Nat := marks.countP isOpened

def ofNumber (n : Nat) (marks : List (Mark η)) : List (Mark η) :=
  marks.filter fun x => x.number? = some n

def exceptNumber (n : Nat) (marks : List (Mark η)) : List (Mark η) :=
  marks.filter fun x => x.number? ≠ some n

variable {c n : Nat} {e : Event} {subs : List (Subscription η)} {marks before after : List (Mark η)}

@[simp] theorem joins_append (l k : List (Mark η)) : joins (l ++ k) = joins l ++ joins k :=
  List.filterMap_append

@[simp] theorem openings_append (l k : List (Mark η)) :
    openings (l ++ k) = openings l + openings k := List.countP_append

@[simp] theorem ofNumber_append (l k : List (Mark η)) :
    ofNumber n (l ++ k) = ofNumber n l ++ ofNumber n k := List.filter_append ..

@[simp] theorem exceptNumber_append (l k : List (Mark η)) :
    exceptNumber n (l ++ k) = exceptNumber n l ++ exceptNumber n k := List.filter_append ..

theorem openings_opened (l : List (Mark η)) : openings (.opened n e :: l) = openings l + 1 :=
  List.countP_cons_of_pos rfl

theorem joins_cons_of_none {x : Mark η} (h : x.joined? = none) (l : List (Mark η)) :
    joins (x :: l) = joins l := List.filterMap_cons_none h

theorem openings_cons_of_false {x : Mark η} (h : x.isOpened = false) (l : List (Mark η)) :
    openings (x :: l) = openings l := List.countP_cons_of_neg (by simp [h])

theorem ofNumber_cons_of_ne {x : Mark η} (h : x.number? ≠ some n) (l : List (Mark η)) :
    ofNumber n (x :: l) = ofNumber n l := List.filter_cons_of_neg (by simpa using h)

theorem exceptNumber_cons_of_ne {x : Mark η} (h : x.number? ≠ some n) (l : List (Mark η)) :
    exceptNumber n (x :: l) = x :: exceptNumber n l := List.filter_cons_of_pos (by simpa using h)

theorem ofNumber_cons_self {x : Mark η} (h : x.number? = some n) (l : List (Mark η)) :
    ofNumber n (x :: l) = x :: ofNumber n l := List.filter_cons_of_pos (by simpa using h)

theorem exceptNumber_cons_self {x : Mark η} (h : x.number? = some n) (l : List (Mark η)) :
    exceptNumber n (x :: l) = exceptNumber n l := List.filter_cons_of_neg (by simpa using h)

theorem ofNumber_eq_nil (h : ∀ x ∈ marks, x.number? ≠ some n) : ofNumber n marks = [] :=
  List.filter_eq_nil_iff.mpr fun x hx => by simpa using h x hx

theorem exceptNumber_eq_self (h : ∀ x ∈ marks, x.number? ≠ some n) : exceptNumber n marks = marks :=
  List.filter_eq_self.mpr fun x hx => by simpa using h x hx

/-- A call with what happens within it: of that, only the call and the return belong to the
announcement that makes it. -/
theorem ofNumber_call {i : Nat} {handler : η} {fault : Option Fault} {inner : List (Mark η)}
    (h : ∀ x ∈ inner, x.number? ≠ some n) (l : List (Mark η)) :
    ofNumber n (.called n i handler e :: (inner ++ .returned n i fault :: l)) =
      .called n i handler e :: .returned n i fault :: ofNumber n l := by
  rw [ofNumber_cons_self rfl, ofNumber_append, ofNumber_eq_nil h, List.nil_append,
    ofNumber_cons_self rfl]

theorem exceptNumber_call {i : Nat} {handler : η} {fault : Option Fault} {inner : List (Mark η)}
    (h : ∀ x ∈ inner, x.number? ≠ some n) (l : List (Mark η)) :
    exceptNumber n (.called n i handler e :: (inner ++ .returned n i fault :: l)) =
      inner ++ exceptNumber n l := by
  rw [exceptNumber_cons_self rfl, exceptNumber_append, exceptNumber_eq_self h,
    exceptNumber_cons_self rfl]

theorem joins_call {i : Nat} {handler : η} {fault : Option Fault} (inner l : List (Mark η)) :
    joins (.called n i handler e :: (inner ++ .returned n i fault :: l)) = joins inner ++ joins l := by
  rw [joins_cons_of_none rfl, joins_append, joins_cons_of_none rfl]

theorem ofNumber_exceptNumber {k : Nat} (h : k ≠ n) (marks : List (Mark η)) :
    ofNumber k (exceptNumber n marks) = ofNumber k marks := by
  unfold ofNumber exceptNumber
  rw [List.filter_filter]
  refine List.filter_congr fun x _ => ?_
  by_cases hx : x.number? = some k <;> simp [hx, h]

theorem joins_exceptNumber (n : Nat) (marks : List (Mark η)) :
    joins (exceptNumber n marks) = joins marks := by
  unfold joins exceptNumber
  rw [List.filterMap_filter]
  refine List.filterMap_congr fun x _ => ?_
  cases x <;> simp [number?, joined?]

theorem openings_exceptNumber (h : ∀ e, .opened n e ∉ marks) :
    openings (exceptNumber n marks) = openings marks := by
  unfold openings exceptNumber
  rw [List.countP_filter]
  refine List.countP_congr fun x hx => ?_
  cases x with
  | opened k e =>
    have hk : k ≠ n := by
      rintro rfl
      exact h e hx
    simp [number?, isOpened, hk]
  | _ => simp [isOpened]

theorem split_append {left right : List (Mark η)} {x : Mark η}
    (h : left ++ right = before ++ x :: after) :
    (∃ mid, left = before ++ x :: mid ∧ after = mid ++ right) ∨
      ∃ mid, before = left ++ mid ∧ right = mid ++ x :: after := by
  obtain ⟨mid, hb, hr⟩ | ⟨mid, hl, hr⟩ := List.append_eq_append_iff.mp h
  · exact .inr ⟨mid, hb, hr⟩
  · cases mid with
    | nil => exact .inr ⟨[], by simpa using hl.symm, hr.symm⟩
    | cons y mid =>
      obtain ⟨rfl, rfl⟩ := List.cons_eq_cons.mp hr
      exact .inl ⟨mid, hl, rfl⟩

/-! ## Orderly marks -/

/-- An announcement of the event begins after the marks before: it has the next number, which no
mark before has, and goes its course for those subscribed then. -/
structure Announced (c : Nat) (subs : List (Subscription η)) (before : List (Mark η)) (n : Nat)
    (e : Event) (after : List (Mark η)) : Prop where
  number : n = c + openings before
  fresh : ofNumber n before = []
  course : ∃ fault, Course n e (due (subs ++ joins before) e.kind) fault (ofNumber n after)

theorem Announced.within {e' : Event} (h : Announced (c + 1) subs (exceptNumber c before) n e
    (exceptNumber c after)) (hn : n ≠ c) (hb : ∀ e', .opened c e' ∉ before) :
    Announced c subs (.opened c e' :: before) n e after where
  number := by
    rw [h.number, openings_opened, openings_exceptNumber hb]
    omega
  fresh := by
    have hcn : (opened c e' : Mark η).number? ≠ some n := fun h => hn (Option.some.inj h).symm
    rw [ofNumber_cons_of_ne hcn, ← ofNumber_exceptNumber hn before]
    exact h.fresh
  course := by
    have hcourse := h.course
    rwa [joins_exceptNumber, ofNumber_exceptNumber hn, ← joins_cons_of_none (x := .opened c e') rfl]
      at hcourse

/-- Each mark of an announcement belongs to one that begins among the marks, and each of these goes
its course. -/
structure Orderly (c : Nat) (subs : List (Subscription η)) (marks : List (Mark η)) : Prop where
  belongs : ∀ x ∈ marks, ∀ n, x.number? = some n → ∃ e, .opened n e ∈ marks
  announced : ∀ before n e after, marks = before ++ .opened n e :: after →
    Announced c subs before n e after

namespace Orderly

theorem nil : Orderly c subs ([] : List (Mark η)) where
  belongs := nofun
  announced _ _ _ _ h := absurd h (by simp)

theorem joined (s : Subscription η) : Orderly c subs [.joined s] where
  belongs := by simp [number?]
  announced before n e after h := by
    rcases before with _ | ⟨x, _⟩ <;> simp at h

/-- Announcements have the numbers from `c` on. -/
theorem number_mem (h : Orderly c subs marks) {x : Mark η} (hx : x ∈ marks)
    (hn : x.number? = some n) : c ≤ n ∧ n < c + openings marks := by
  obtain ⟨e, hmem⟩ := h.belongs x hx n hn
  obtain ⟨before, after, rfl⟩ := List.append_of_mem hmem
  have hnum := (h.announced before n e after rfl).number
  rw [openings_append, openings_opened]
  omega

theorem number_ne (h : Orderly c subs marks) (hn : n < c ∨ c + openings marks ≤ n) :
    ∀ x ∈ marks, x.number? ≠ some n := by
  intro x hx hnum
  have := h.number_mem hx hnum
  omega

theorem append {left right : List (Mark η)} (hl : Orderly c subs left)
    (hr : Orderly (c + openings left) (subs ++ joins left) right) :
    Orderly c subs (left ++ right) where
  belongs x hx n hn := by
    rcases List.mem_append.mp hx with hx | hx
    · exact (hl.belongs x hx n hn).imp fun e he => List.mem_append_left _ he
    · exact (hr.belongs x hx n hn).imp fun e he => List.mem_append_right _ he
  announced := by
    intro before n e after h
    obtain ⟨mid, rfl, rfl⟩ | ⟨mid, rfl, rfl⟩ := split_append h
    · -- the marks on the right have later numbers
      have ha := hl.announced before n e mid rfl
      have hn := (hl.number_mem (x := .opened n e) (by simp) rfl).2
      refine ⟨ha.number, ha.fresh, ?_⟩
      rw [ofNumber_append, ofNumber_eq_nil (hr.number_ne (.inl hn)), List.append_nil]
      exact ha.course
    · -- and those on the left earlier ones
      have ha := hr.announced mid n e after rfl
      have hn := ha.number
      refine ⟨by rw [openings_append]; omega, ?_, ?_⟩
      · rw [ofNumber_append, ha.fresh, ofNumber_eq_nil (hl.number_ne (.inr (by omega))),
          List.append_nil]
      · rw [joins_append, ← List.append_assoc]
        exact ha.course

theorem opened {e : Event} {fault : Option Fault}
    (hc : Course c e (due subs e.kind) fault (ofNumber c marks))
    (h : Orderly (c + 1) subs (exceptNumber c marks)) : Orderly c subs (.opened c e :: marks) := by
  have hopened : ∀ e', .opened c e' ∉ marks := fun e' hmem =>
    hc.opened_notMem (List.mem_filter.mpr ⟨hmem, by simp [number?]⟩)
  constructor
  · intro x hx n hn
    by_cases hnc : n = c
    · exact ⟨e, by simp [hnc]⟩
    · have hne : x.number? ≠ some c := by simpa [hn] using hnc
      have hx : x ∈ marks := (List.mem_cons.mp hx).resolve_left (by rintro rfl; exact hne rfl)
      have hmem := h.belongs x (List.mem_filter.mpr ⟨hx, by simpa using hne⟩) n hn
      exact hmem.imp fun e' he => List.mem_cons_of_mem _ (List.mem_of_mem_filter he)
  · intro before n e' after hsplit
    cases before with
    | nil =>
      obtain ⟨heq, rfl⟩ := List.cons_eq_cons.mp hsplit
      obtain ⟨rfl, rfl⟩ := Mark.opened.inj heq
      exact ⟨rfl, rfl, fault, by simpa [joins] using hc⟩
    | cons x before =>
      rw [List.cons_append] at hsplit
      obtain ⟨rfl, rfl⟩ := List.cons_eq_cons.mp hsplit
      -- an announcement within is found among the marks that are orderly by themselves
      have hnc : n ≠ c := by
        rintro rfl
        exact hopened e' (by simp)
      have hne : (opened n e' : Mark η).number? ≠ some c := fun h => hnc (Option.some.inj h)
      have ha := h.announced (exceptNumber c before) n e' (exceptNumber c after) (by
        rw [exceptNumber_append, exceptNumber_cons_of_ne hne])
      exact ha.within hnc fun e' hmem => hopened e' (by simp [hmem])

/-- A call belongs to an announcement that began before, of the same event, and to a handler that
was subscribed when it did. -/
theorem called {i : Nat} {handler : η} (h : Orderly c subs marks)
    (hmem : .called n i handler e ∈ marks) :
    ∃ before after, marks = before ++ .opened n e :: after ∧ .called n i handler e ∈ after ∧
      (i, handler) ∈ due (subs ++ joins before) e.kind := by
  obtain ⟨e', hopened⟩ := h.belongs _ hmem n rfl
  obtain ⟨before, after, rfl⟩ := List.append_of_mem hopened
  have ha := h.announced before n e' after rfl
  obtain ⟨fault, hc⟩ := ha.course
  have hafter : .called n i handler e ∈ after := by
    have hb : .called n i handler e ∉ before := fun hb =>
      List.filter_eq_nil_iff.mp ha.fresh _ hb (by simp [number?])
    simpa [hb] using hmem
  obtain ⟨rfl, hdue⟩ := hc.called (List.mem_filter.mpr ⟨hafter, by simp [number?]⟩)
  exact ⟨before, after, rfl, hafter, hdue⟩

/-- Who has joined is called by announcements only that begin later. -/
theorem called_of_joined {s : Subscription η} {i : Nat} {handler : η} (h : Orderly c subs marks)
    (hs : marks = before ++ .joined s :: after) (hi : i = (subs ++ joins before).length)
    (hmem : .called n i handler e ∈ marks) :
    handler = s.handler ∧ ∃ mid rest, after = mid ++ .opened n e :: rest ∧
      .called n i handler e ∈ rest := by
  obtain ⟨b, a, hb, ha, hdue⟩ := h.called hmem
  rw [mem_due] at hdue
  obtain ⟨mid, rfl, rfl⟩ | ⟨mid, rfl, -⟩ := split_append (hb.symm.trans hs)
  · refine ⟨?_, mid, a, rfl, ha⟩
    have hat : (subs ++ joins (before ++ .joined s :: mid))[i]? = some s := by
      rw [joins_append, ← List.append_assoc, hi]
      simp [joins, joined?]
    exact (congrArg Subscription.handler (Option.some.inj (hat.symm.trans hdue))).symm
  · -- otherwise there were too few subscribed for the position
    obtain ⟨hlt, -⟩ := List.getElem?_eq_some_iff.mp hdue
    simp only [joins_append, List.length_append] at hi hlt
    omega

end Orderly

end Mark

end Moo
