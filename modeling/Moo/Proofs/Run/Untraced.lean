import Moo.Proofs.Run.Direct
import Moo.Proofs.Run.Receipt
import Moo.Proofs.Run.Unread

/-!
# Runs without entries

Whether the steps are recorded changes nothing about a run but the entries of its receipt, however
it comes out (`Job.runWithin_untraced`). So two jobs that differ in this and in their stamps come
out alike (`Outcome.Alike`), and their receipts differ in nothing else (`Receipt.Alike`).
-/

namespace Moo.Run

variable {σ : Type} {d : Device σ} {o : Options}

/-! ## Runs -/

theorem Session.run_untraced (budget : Nat) (s : Session σ) :
    run d o.untraced budget s.untraced = (run d o budget s).map untraced :=
  run_map (f := untraced) (fun _ => rfl) tick_untraced budget s

def Outcome.untraced : Outcome σ → Outcome σ
  | .finished r => .finished { r with receipt := { r.receipt with entries := [] } }
  | .failed failure device => .failed failure device
  | .unfinished device => .unfinished device

def Job.untraced (j : Job) : Job := { j with options := j.options.untraced }

theorem Job.conclude_untraced (j : Job) (buffered : Bool) (p : Session.Progress σ) :
    j.untraced.conclude buffered (p.map Session.untraced) = (j.conclude buffered p).untraced := by
  cases p with
  | finished s =>
    have hsummary : j.untraced.summary buffered s.untraced = j.summary buffered s := rfl
    simp only [Session.Progress.map, conclude, hsummary]
    cases j.summary buffered s <;> rfl
  | failed failure s => rfl
  | running s => rfl

theorem Job.runWithin_untraced (j : Job) (budget : Nat) (buffered : Bool) (device : σ) :
    j.untraced.runWithin budget d buffered device =
      (j.runWithin budget d buffered device).untraced := by
  cases hm : Machine.load j.catalogue (j.catalogue.program j.text) j.options.memorySize with
  | error e =>
    rw [runWithin_of_error hm, runWithin_of_error (j := j.untraced) hm]
    rfl
  | ok m =>
    rw [runWithin_of_load hm, runWithin_of_load (j := j.untraced) hm, ← conclude_untraced,
      ← Session.run_untraced]
    rfl

/-! ## Jobs that differ in what they record and in their stamps -/

/-- The receipts differ at most in their entries and stamps. -/
structure Receipt.Alike (r r' : Receipt) : Prop where
  hash : r'.heading.hash = r.heading.hash
  path : r'.heading.path = r.heading.path
  verdict : r'.verdict = r.verdict
  logs : r'.logs = r.logs

/-- The runs came out alike: they left the same machine and device, and receipts that are alike. -/
inductive Outcome.Alike : Outcome σ → Outcome σ → Prop where
  | finished {r r' : Result σ} : r'.machine = r.machine → r'.device = r.device →
      r.receipt.Alike r'.receipt → Alike (.finished r) (.finished r')
  | failed (failure : Failure) (device : σ) :
      Alike (.failed failure device) (.failed failure device)
  | unfinished (device : σ) : Alike (.unfinished device) (.unfinished device)

theorem Receipt.Alike.trans {r r' r'' : Receipt} (h : r.Alike r') (h' : r'.Alike r'') :
    r.Alike r'' where
  hash := h'.hash.trans h.hash
  path := h'.path.trans h.path
  verdict := h'.verdict.trans h.verdict
  logs := h'.logs.trans h.logs

namespace Outcome

variable {x y z : Outcome σ}

theorem Alike.trans (h : x.Alike y) (h' : y.Alike z) : x.Alike z := by
  cases h with
  | finished hmachine hdevice hreceipt =>
    cases h' with
    | finished hmachine' hdevice' hreceipt' =>
      exact .finished (hmachine'.trans hmachine) (hdevice'.trans hdevice) (hreceipt.trans hreceipt')
  | failed failure device => exact h'
  | unfinished device => exact h'

theorem Alike.exists_finished {r : Result σ} (h : (Outcome.finished r).Alike y) :
    ∃ r', y = .finished r' ∧ r'.device = r.device ∧ r.receipt.Alike r'.receipt := by
  cases h with
  | finished hmachine hdevice hreceipt => exact ⟨_, rfl, hdevice, hreceipt⟩

theorem Alike.eq_failed {failure : Failure} {device : σ}
    (h : (Outcome.failed failure device).Alike y) : y = .failed failure device := by
  cases h
  rfl

theorem Alike.eq_unfinished {device : σ} (h : (Outcome.unfinished device).Alike y) :
    y = .unfinished device := by
  cases h
  rfl

theorem alike_of_untraced (h : y.untraced = x.untraced) : x.Alike y := by
  cases x with
  | finished r =>
    cases y with
    | finished r' =>
      simp only [untraced, finished.injEq, Result.mk.injEq, Receipt.mk.injEq] at h
      obtain ⟨hmachine, hdevice, hheading, hverdict, hlogs, -⟩ := h
      exact .finished hmachine hdevice
        ⟨congrArg Heading.hash hheading, congrArg Heading.path hheading, hverdict, hlogs⟩
    | failed failure device => cases h
    | unfinished device => cases h
  | failed failure device =>
    cases y <;> cases h
    exact .failed failure device
  | unfinished device =>
    cases y <;> cases h
    exact .unfinished device

end Outcome

namespace Job

variable (j : Job) (budget : Nat) (buffered : Bool) (device : σ)

theorem runWithin_heading {r : Result σ}
    (h : j.runWithin budget d buffered device = .finished r) : r.receipt.heading = j.heading := by
  obtain ⟨m, s, shown, -, -, -, rfl⟩ := runWithin_finished h
  rfl

theorem runWithin_stamped (stamp : Stamp) :
    (j.runWithin budget d buffered device).Alike
      (({ j with stamp } : Job).runWithin budget d buffered device) := by
  rw [j.runWithin_restamped (d := d) stamp budget buffered device]
  cases hx : j.runWithin budget d buffered device with
  | finished r =>
    have hheading := runWithin_heading j budget buffered device hx
    refine .finished rfl rfl ⟨?_, ?_, rfl, rfl⟩ <;> rw [hheading] <;> rfl
  | failed failure left => exact .failed failure left
  | unfinished left => exact .unfinished left

/-- The job with its steps recorded or not, under another stamp. -/
def told (trace : Bool) (stamp : Stamp) (j : Job) : Job :=
  { j with options := { j.options with trace }, stamp }

/-- Whether steps are recorded, and under which stamp, does not change how a run comes out. -/
theorem runWithin_told (trace : Bool) (stamp : Stamp) :
    (j.runWithin budget d buffered device).Alike
      ((j.told trace stamp).runWithin budget d buffered device) := by
  have htrace : (j.runWithin budget d buffered device).Alike
      ((j.told trace j.stamp).runWithin budget d buffered device) := by
    apply Outcome.alike_of_untraced
    rw [← runWithin_untraced, ← runWithin_untraced]
    rfl
  exact htrace.trans ((j.told trace j.stamp).runWithin_stamped budget buffered device stamp)

theorem run_told (patience : Nat) (trace : Bool) (stamp : Stamp) :
    (j.run patience d buffered device).Alike ((j.told trace stamp).run patience d buffered device) :=
  j.runWithin_told (j.budget patience) buffered device trace stamp

end Job

theorem Receipt.Alike.status {r r' : Receipt} (h : r.Alike r') : r'.status = r.status := by
  unfold Receipt.status
  rw [h.verdict]

/-- Receipts that are alike have the same members, but for the steps and what is said of the run. -/
theorem Receipt.Alike.field? {r r' : Receipt} (h : r.Alike r') {name : String}
    (hsteps : name ≠ "steps") (hrun : name ≠ "run") :
    r'.toJson.field? name = r.toJson.field? name := by
  have hmember : ∀ fields : List (String × Json),
      (Json.record fields).field? name = fields.lookup name := Json.member?_record name
  have hsteps := beq_eq_false_iff_ne.mpr hsteps
  have hrun := beq_eq_false_iff_ne.mpr hrun
  unfold toJson
  rw [hmember, hmember, h.verdict, h.logs]
  unfold Heading.members
  rw [h.hash, h.path]
  simp only [List.cons_append, List.lookup_cons, hsteps, hrun]

end Moo.Run
