import Mathlib.Tactic.Choose
import Moo.Audience.Dispatch
import Moo.Proofs.Audience.Watching

/-!
# Actions put together

`Act.Closed P`: what `P` tells of actions survives the ways to put actions together, which are
looking at the world, raising, doing one thing after another and going on after a fault. What is
asked of a machine is put together from deeds, so `P` holds of a request if it does of its deeds and
of subscribing (`Closed.perform`). Keeping an invariant is such a `P`, and so is coming out alike as
an action of another such kind, seen through a view of the audience (`Closed.seen`). `Act.Congruent
R` says the same of a relation between what is done by one host and by another.

A condition on the audience alone survives every deed if it survives the announcements
(`Host.does_keeps_audience`): the deed is then one among audiences that meet the condition.
-/

namespace Moo

open Act

variable {σ ω ω' : Type} {α β : Type}

theorem Act.forM_cons_of_ok {f : α → Act σ ω Unit} {a : α} {w v : World σ ω}
    (h : f a w = .ok () v) (l : List α) : (a :: l).forM f w = l.forM f v := bind_of_ok h _

theorem Act.forM_cons_of_error {f : α → Act σ ω Unit} {a : α} {w v : World σ ω} {e : Fault}
    (h : f a w = .error e v) (l : List α) : (a :: l).forM f w = .error e v := bind_of_error h _

/-! ## Closure -/

/-- `P` survives the ways to put actions together. -/
structure Act.Closed (P : (α : Type) → Act σ ω α → Prop) : Prop where
  look : ∀ {α : Type} (f : World σ ω → α), P α fun w => .ok (f w) w
  throw : ∀ {α : Type} (e : Fault), P α (MonadExcept.throw e)
  bind : ∀ {α β : Type} {x : Act σ ω α} {f : α → Act σ ω β},
    P α x → (∀ a, P β (f a)) → P β (x >>= f)
  recover : ∀ {α : Type} {x : Act σ ω α} {f : Fault → Act σ ω α},
    P α x → (∀ e, P α (f e)) → P α (x.recover f)

theorem Act.Keeps.closed {I : World σ ω → Prop} :
    Closed fun (α : Type) (x : Act σ ω α) => Keeps I x where
  look _ := fun _ h => h
  throw e := .throw e
  bind hx hf := .bind hx hf
  recover hx hf := .recover hx hf

/-- Seen through `π`, the action is one with `P`. -/
def Act.Seen (π : ω → ω') (P : (α : Type) → Act σ ω α → Prop) (α : Type) (y : Act σ ω' α) : Prop :=
  ∃ x, P α x ∧ Shows π x y

namespace Act.Closed

variable {P : (α : Type) → Act σ ω α → Prop}

theorem pure (hP : Closed P) (a : α) : P α (Pure.pure a) := hP.look fun _ => a

theorem choice (hP : Closed P) {γ : Type} (f : World σ ω → γ) {x : γ → Act σ ω α}
    (hx : ∀ c, P α (x c)) : P α fun w => x (f w) w := hP.bind (hP.look f) hx

theorem attempt (hP : Closed P) {x : Act σ ω α} (hx : P α x) : P Unit x.attempt :=
  hP.recover (hP.bind hx fun _ => hP.pure ()) fun _ => hP.pure ()

theorem seen (hP : Closed P) (π : ω → ω') : Closed (Seen π P) where
  look f := ⟨_, hP.look fun w => f (w.heard π), fun _ => rfl⟩
  throw e := ⟨_, hP.throw e, .throw e⟩
  bind hx hf := by
    obtain ⟨x, hx, hxs⟩ := hx
    choose f hf hfs using hf
    exact ⟨x >>= f, hP.bind hx hf, .bind hxs hfs⟩
  recover hx hf := by
    obtain ⟨x, hx, hxs⟩ := hx
    choose f hf hfs using hf
    exact ⟨x.recover f, hP.recover hx hf, .recover hxs hfs⟩

end Act.Closed

/-! ## What is asked of a machine -/

theorem Host.traceFrom_succ (h : Host σ ω) (rows : List (Except Fault Status)) (limit : Nat) :
    h.traceFrom rows (limit + 1) = Act.look (·.finished) >>= fun finished =>
      if finished then pure rows.reverse
      else (h.step >>= fun _ => Act.look fun m => Except.ok m.status).recover
        (fun e => pure (.error e)) >>= fun row => match row with
          | .error e => pure (.error e :: rows).reverse
          | .ok status => h.traceFrom (.ok status :: rows) limit := by
  funext w
  rw [look_bind, Host.traceFrom]
  cases hf : w.machine.finished with
  | true => exact if_pos hf
  | false =>
    refine (if_neg (by simp [hf])).trans ?_
    rw [if_neg Bool.false_ne_true]
    cases hr : h.step w with
    | ok u v =>
      have hrow := recover_of_ok (f := fun e => pure (.error e))
        (bind_of_ok hr fun _ => Act.look fun m => Except.ok m.status)
      rw [bind_of_ok hrow]
    | error e v =>
      have hrow := recover_of_error (f := fun e => pure (.error e))
        (bind_of_error hr fun _ => Act.look fun m => Except.ok m.status)
      rw [bind_of_ok hrow]
      rfl

def Request.Steps : Request → Prop
  | .step => True
  | .run _ => True
  | .trace _ => True
  | _ => False

structure Act.Congruent (R : (α : Type) → Act σ ω α → Act σ ω α → Prop) : Prop where
  look : ∀ {α : Type} (f : World σ ω → α), R α (fun w => .ok (f w) w) fun w => .ok (f w) w
  throw : ∀ {α : Type} (e : Fault), R α (MonadExcept.throw e) (MonadExcept.throw e)
  bind : ∀ {α β : Type} {x y : Act σ ω α} {f g : α → Act σ ω β},
    R α x y → (∀ a, R β (f a) (g a)) → R β (x >>= f) (y >>= g)
  recover : ∀ {α : Type} {x y : Act σ ω α} {f g : Fault → Act σ ω α},
    R α x y → (∀ e, R α (f e) (g e)) → R α (x.recover f) (y.recover g)

namespace Act.Congruent

variable {R : (α : Type) → Act σ ω α → Act σ ω α → Prop} {h k : Host σ ω}

theorem pure (hR : Congruent R) (a : α) : R α (Pure.pure a) (Pure.pure a) := hR.look fun _ => a

theorem forM (hR : Congruent R) {f g : α → Act σ ω Unit} :
    ∀ l : List α, (∀ a ∈ l, R Unit (f a) (g a)) → R Unit (l.forM f) (l.forM g)
  | [], _ => hR.pure ()
  | a :: l, h => hR.bind (h a List.mem_cons_self) fun _ =>
      forM hR l fun b hb => h b (List.mem_cons_of_mem a hb)

theorem run (hR : Congruent R) (hstep : R Unit h.step k.step) (limit : Nat) :
    R Nat (h.run limit) (k.run limit) := by
  induction limit with
  | zero => exact hR.pure 0
  | succ limit ih =>
    refine hR.bind (hR.look (·.machine.finished)) fun finished => ?_
    cases finished with
    | true => exact hR.pure 0
    | false => exact hR.bind hstep fun _ => hR.bind ih fun _ => hR.pure _

theorem traceFrom (hR : Congruent R) (hstep : R Unit h.step k.step) (limit : Nat) :
    ∀ rows, R (List (Except Fault Status)) (h.traceFrom rows limit) (k.traceFrom rows limit) := by
  induction limit with
  | zero => exact fun rows => hR.pure rows.reverse
  | succ limit ih =>
    intro rows
    rw [Host.traceFrom_succ, Host.traceFrom_succ]
    refine hR.bind (hR.look (·.machine.finished)) fun finished => ?_
    cases finished with
    | true => exact hR.pure _
    | false =>
      have hrow := hR.recover (hR.bind hstep fun _ =>
        hR.look fun w => Except.ok (ε := Fault) w.machine.status) fun e => hR.pure (.error e)
      refine hR.bind hrow fun row => ?_
      cases row with
      | error e => exact hR.pure _
      | ok status => exact ih _

end Act.Congruent

/-- `R` holds of a request before two hosts if it does of the deeds in it and of the subscription
that it brings. -/
theorem Act.Congruent.perform {R : (α : Type) → Act σ Audience α → Act σ Audience α → Prop}
    (hR : Congruent R) {h k : Host σ Audience} (r : Request)
    (does : ∀ deed, (deed = .step → r.Steps) → R Unit (h.does deed) (k.does deed))
    (hadd : ∀ event tag schedule kind, r = .subscribe event tag schedule →
      R Unit (fun w => .ok () { w with audience := w.audience.add ⟨kind, tag, schedule⟩ })
        fun w => .ok () { w with audience := w.audience.add ⟨kind, tag, schedule⟩ }) :
    R Reply (r.perform h) (r.perform k) := by
  cases r with
  | step => exact hR.bind (does .step fun _ => trivial) fun _ => hR.pure _
  | run limit => exact hR.bind (hR.run (does .step fun _ => trivial) limit) fun _ => hR.pure _
  | trace limit =>
    exact hR.bind (hR.traceFrom (does .step fun _ => trivial) limit []) fun _ => hR.pure _
  | setValue n => exact hR.bind (does (.setValue n) nofun) fun _ => hR.pure _
  | setCursor position => exact hR.bind (does (.setCursor position) nofun) fun _ => hR.pure _
  | setRegister n => exact hR.bind (does (.setRegister n) nofun) fun _ => hR.pure _
  | call name =>
    refine hR.bind (hR.look fun w => w.machine.catalogue.named? name) fun found => ?_
    cases found with
    | none => exact hR.throw _
    | some c => exact hR.bind (does (.call c) nofun) fun _ => hR.pure _
  | callAt id =>
    refine hR.bind (hR.look fun w => w.machine.catalogue.at? id) fun found => ?_
    cases found with
    | none => exact hR.throw _
    | some c => exact hR.bind (does (.call c) nofun) fun _ => hR.pure _
  | jump name limit =>
    exact hR.bind (does (.jump (Request.jumpsTo name limit)) nofun) fun _ => hR.pure _
  | armSkip => exact hR.bind (does .armSkip nofun) fun _ => hR.pure _
  | badEval info => exact hR.bind (does (.badEval info) nofun) fun _ => hR.pure _
  | subscribe event tag schedule =>
    rw [Request.perform, Request.perform]
    cases EventKind.named? event with
    | none => exact hR.throw _
    | some kind => exact hR.bind (hadd event tag schedule kind rfl) fun _ => hR.pure Reply.nothing
  | raise text => exact hR.throw _

theorem Act.Closed.congruent {P : (α : Type) → Act σ ω α → Prop} (hP : Closed P) :
    Congruent fun α x _ => P α x where
  look := hP.look
  throw := hP.throw
  bind hx hf := hP.bind hx hf
  recover hx hf := hP.recover hx hf

theorem Act.Closed.forM {P : (α : Type) → Act σ ω α → Prop} (hP : Closed P) {f : α → Act σ ω Unit}
    (l : List α) (h : ∀ a ∈ l, P Unit (f a)) : P Unit (l.forM f) :=
  hP.congruent.forM (g := f) l h

theorem Act.Closed.perform {P : (α : Type) → Act σ Audience α → Prop} (hP : Closed P)
    {h : Host σ Audience} (r : Request)
    (does : ∀ deed, (deed = .step → r.Steps) → P Unit (h.does deed))
    (hadd : ∀ event tag schedule kind, r = .subscribe event tag schedule →
      P Unit fun w => .ok () { w with audience := w.audience.add ⟨kind, tag, schedule⟩ }) :
    P Reply (r.perform h) := hP.congruent.perform (k := h) r does hadd

/-- `P` holds of a request and all that subscribers request in turn if it does however deep they may
go. -/
theorem Act.Closed.fulfil {P : (α : Type) → Act σ Audience α → Prop} (hP : Closed P) {d : Device σ}
    {r : Request} (h : ∀ depth, P Reply (r.perform ⟨d, Audience.dispatch d depth⟩)) :
    P Reply (r.fulfil d) :=
  hP.choice (fun w => w.audience.calls + r.calls) h

/-! ## Conditions on the audience -/

/-- An action that keeps a condition on the audience, as one among audiences that meet it. -/
def Act.within (J : ω → Prop) (x : Act σ ω α) (hx : Keeps (fun w => J w.audience) x) :
    Act σ { a // J a } α := fun w =>
  match h : x (w.heard Subtype.val) with
  | .ok a v => .ok a ⟨v.machine, v.device, v.audience, final_of_ok h ▸ hx _ w.audience.2⟩
  | .error e v => .error e ⟨v.machine, v.device, v.audience, final_of_error h ▸ hx _ w.audience.2⟩

theorem Act.within_shows {J : ω → Prop} {x : Act σ ω α} (hx : Keeps (fun w => J w.audience) x) :
    Shows Subtype.val (x.within J hx) x := by
  intro w
  unfold within
  split <;> assumption

theorem Act.Shows.keeps {J : ω → Prop} {x : Act σ { a // J a } α} {y : Act σ ω α}
    (h : Shows Subtype.val x y) : Keeps (fun w => J w.audience) y := by
  intro w hw
  have hfinal := h.final ⟨w.machine, w.device, w.audience, hw⟩
  exact (congrArg (fun w => J w.audience) hfinal).mpr (x.final _).audience.2

section

variable {h k : Host σ ω} {J : ω → Prop}

theorem Host.within_shows (ha : ∀ e, Keeps (fun w => J w.audience) (h.announce e)) :
    Host.Shows Subtype.val ⟨h.device, fun e => (h.announce e).within J (ha e)⟩ h :=
  ⟨rfl, fun e => Act.within_shows (ha e)⟩

theorem Host.does_keeps_audience (ha : ∀ e, Keeps (fun w => J w.audience) (h.announce e))
    (deed : Deed) : Keeps (fun w => J w.audience) (h.does deed) :=
  ((Host.within_shows ha).does deed).keeps

theorem Host.does_eq_of_audience (hd : k.device = h.device)
    (ha : ∀ e, Keeps (fun w => J w.audience) (h.announce e))
    (heq : ∀ e w, J w.audience → k.announce e w = h.announce e w) (deed : Deed) {w : World σ ω}
    (hw : J w.audience) : k.does deed w = h.does deed w := by
  have H := Host.within_shows ha
  -- the host among those audiences is seen as the one and as the other
  have K : Host.Shows Subtype.val ⟨h.device, fun e => (h.announce e).within J (ha e)⟩ k :=
    ⟨hd, fun e v => (heq e _ v.audience.2).trans (H.announce e v)⟩
  let v : World σ { a // J a } := ⟨w.machine, w.device, w.audience, hw⟩
  exact (K.does deed v).trans (H.does deed v).symm

end

end Moo
