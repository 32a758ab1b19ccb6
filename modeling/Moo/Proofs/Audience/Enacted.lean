import Moo.Audience.Dispatch
import Moo.Proofs.Audience.Diary
import Moo.Proofs.Audience.Requests
import Moo.Proofs.Audience.Watching

/-!
# Scheduled requests are behaviour

`Act.Enacted d y`: with a diary kept, the action `y` is made of what subscribers can do; seen
without the diary it does the same in every world. Whatever is requested of a machine is enacted,
with all that its scheduled subscribers request in turn (`Request.fulfil_enacted`), so what holds of
every diary holds of their histories.
-/

namespace Moo

open Act

variable {σ ω : Type} {α β : Type} {d : Device σ}

/-- With a diary kept, the action is made of what subscribers can do. -/
def Act.Enacted (d : Device σ) (y : Act σ ω α) : Prop :=
  ∃ x : Act σ (Diary ω) α, Behaved d .free x ∧ Shows Diary.own x y

theorem Behaved.closed (terms : Terms σ ω) :
    Closed fun (α : Type) (x : Act σ (Diary ω) α) => Behaved d terms x where
  look := .look
  throw := .raise
  bind := .bind
  recover := .recover

namespace Act.Enacted

theorem closed : Closed fun (α : Type) (x : Act σ ω α) => Enacted d x :=
  (Behaved.closed .free).seen Diary.own

theorem note (f : ω → ω) :
    Enacted d fun w : World σ ω => .ok () { w with audience := f w.audience } :=
  ⟨_, .note f, fun _ => rfl⟩

theorem deed {h : Host σ ω} (hd : h.device = d) (ha : ∀ e, Enacted d (h.announce e)) (deed : Deed) :
    Enacted d (h.does deed) := by
  choose react hreact hshows using ha
  have H : Host.Shows Diary.own (Host.witnessed d deed react) h :=
    ⟨hd, fun e w => hshows e (w.noted (.told deed e))⟩
  refine ⟨_, .deed deed trivial hreact, fun w => ?_⟩
  have hdone := H.does deed (w.noted (.begun deed))
  refine Eq.trans hdone ?_
  unfold Host.carryOut concluded
  cases (Host.witnessed d deed react).does deed (w.noted (.begun deed)) <;> rfl

end Act.Enacted

/-! ## Requests -/

/-- A request is enacted if the announcements are to which it leads. -/
theorem Request.perform_enacted {h : Host σ Audience} (hd : h.device = d)
    (ha : ∀ e, Enacted d (h.announce e)) (r : Request) : Enacted d (r.perform h) :=
  Enacted.closed.perform r (fun deed _ => .deed hd ha deed)
    fun _ tag schedule kind _ => .note (Audience.add ⟨kind, tag, schedule⟩)

theorem Audience.notify_enacted {react : List Request → Act σ Audience Unit}
    (hr : ∀ rs, Enacted d (react rs)) (e : Event) : Enacted d (notify react e) := by
  have one : ∀ i, Enacted d (notifyOne react e i) := fun i =>
    Enacted.closed.choice (fun w : World σ Audience => (w.audience.call i e).1) fun rs =>
      Enacted.closed.bind (.note fun a : Audience => (a.call i e).2) fun _ => hr rs
  exact Enacted.closed.choice (·.audience.subscribed e.kind) fun l =>
    Enacted.closed.forM l fun i _ => one i

theorem Audience.dispatch_enacted (depth : Nat) : ∀ e, Enacted d (dispatch d depth e) := by
  -- what is announced while subscribers react goes one level less deep
  induction depth with
  | zero => exact notify_enacted fun _ => Enacted.closed.pure ()
  | succ depth ih =>
    refine notify_enacted fun rs => Enacted.closed.forM rs fun r _ => ?_
    exact Enacted.closed.bind (r.perform_enacted (h := ⟨d, dispatch d depth⟩) rfl ih) fun _ =>
      Enacted.closed.pure ()

/-- Fulfilling a request is enacted, whatever subscribers request in turn. -/
theorem Request.fulfil_enacted (d : Device σ) (r : Request) : Enacted d (r.fulfil d) :=
  Enacted.closed.fulfil fun depth =>
    r.perform_enacted (h := ⟨d, Audience.dispatch d depth⟩) rfl (Audience.dispatch_enacted depth)

theorem Request.serve_enacted (d : Device σ) (rs : List Request) :
    ∃ x : Act σ (Diary Audience) Unit, Behaved d .free x ∧
      ∀ w, (x.final w).heard Diary.own = serve d rs (w.heard Diary.own) := by
  obtain ⟨y, ⟨x, hx, hshows⟩, hserve⟩ := Enacted.closed.serve (Request.fulfil_enacted d) rs
  exact ⟨x, hx, fun w => (hshows.final w).symm.trans (hserve _)⟩

end Moo
