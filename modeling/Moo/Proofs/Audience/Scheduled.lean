import Moo.Device.Buffer
import Moo.Proofs.Audience.Depth
import Moo.Proofs.Audience.Enrolled
import Moo.Proofs.Audience.Requests

/-!
# Announcements reach those subscribed

An audience of scheduled subscribers is the view of one that keeps a roll: its notes are the calls
on the roll (`Roll.audience`). Announcing an event to it is announcing it to those subscribed when
the announcement begins (`Audience.dispatch_enrolls`), so what is requested of a machine leaves an
orderly roll (`Request.serve_enrolled`).
-/

namespace Moo

open Act

variable {σ : Type} {α : Type} {d : Device σ}

/-! ## Subscribers with schedules -/

/-- A scheduled subscriber is known by its tag. -/
def Subscriber.subscription (s : Subscriber) : Subscription String := ⟨s.kind, s.tag⟩

namespace Audience

def roster (subscribers : Array Subscriber) : List (Subscription String) :=
  subscribers.toList.map Subscriber.subscription

theorem roster_getElem? (subscribers : Array Subscriber) (i : Nat) :
    (roster subscribers)[i]? = subscribers[i]?.map Subscriber.subscription := by
  unfold roster
  rw [List.getElem?_map, Array.getElem?_toList]

theorem roster_push (subscribers : Array Subscriber) (s : Subscriber) :
    roster (subscribers.push s) = roster subscribers ++ [s.subscription] := by
  simp [roster]

/-- Those who are called are those who are due. -/
theorem subscribed_eq (a : Audience) (kind : EventKind) :
    a.subscribed kind = (due (roster a.subscribers) kind).map Prod.fst := by
  have hrange : List.range a.subscribers.size = (roster a.subscribers).zipIdx.map Prod.snd := by
    rw [List.zipIdx_map_snd, List.range_eq_range']
    simp [roster]
  unfold subscribed due
  rw [hrange, List.filter_map, List.map_map]
  refine congrArg (List.map Prod.snd) (List.filter_congr fun p hp => ?_)
  rw [List.mem_zipIdx_iff_getElem?, roster_getElem?] at hp
  obtain ⟨s, hs, hsub⟩ := Option.map_eq_some_iff.mp hp
  simp only [Function.comp_apply, hs, ← hsub]
  rfl

theorem roster_call (a : Audience) (i : Nat) (e : Event) :
    roster (a.call i e).2.subscribers = roster a.subscribers := by
  unfold call
  cases hi : a.subscribers[i]? with
  | none => rfl
  | some s =>
    cases hs : Request.next? s.schedule with
    | none => simp only [hs]
    | some p =>
      simp only [hs]
      refine List.ext_getElem? fun j => ?_
      rw [roster_getElem?, roster_getElem?, Array.getElem?_setIfInBounds]
      by_cases hij : i = j
      · obtain ⟨hlt, -⟩ := Array.getElem?_eq_some_iff.mp hi
        rw [if_pos hij, if_pos hlt, ← hij, hi]
        rfl
      · rw [if_neg hij]

/-- A call notes the event under the tag; what was noted before does not matter to it. -/
theorem call_eq {subscribers : Array Subscriber} {i : Nat} {kind : EventKind} {tag : String}
    (h : (roster subscribers)[i]? = some ⟨kind, tag⟩) (notes : Array Note) (e : Event) :
    (⟨subscribers, notes⟩ : Audience).call i e =
      (((⟨subscribers, #[]⟩ : Audience).call i e).1,
        ⟨((⟨subscribers, #[]⟩ : Audience).call i e).2.subscribers, notes.push ⟨tag, e⟩⟩) := by
  rw [roster_getElem?] at h
  obtain ⟨s, hi, hs⟩ := Option.map_eq_some_iff.mp h
  have htag : s.tag = tag := congrArg Subscription.handler hs
  unfold call
  simp only [hi, htag]
  cases Request.next? s.schedule <;> rfl

end Audience

/-! ## The view of a roll -/

/-- What a scheduled subscriber notes when it is called. -/
def Mark.note? : Mark String → Option Note
  | .called _ _ tag e => some ⟨tag, e⟩
  | _ => none

namespace Roll

def audience (a : Roll String (Array Subscriber)) : Audience :=
  ⟨a.own, (a.marks.filterMap Mark.note?).toArray⟩

theorem audience_add {mark : Mark String} (h : mark.note? = none)
    (a : Roll String (Array Subscriber)) : (a.add mark).audience = a.audience := by
  simp [audience, add, h]

theorem audience_called (a : Roll String (Array Subscriber)) (n i : Nat) (tag : String) (e : Event)
    (own : Array Subscriber) : audience ⟨(a.add (.called n i tag e)).marks, own⟩ =
      ⟨own, a.audience.notes.push ⟨tag, e⟩⟩ := by
  simp [audience, add, Mark.note?]

theorem audience_joined (a : Roll String (Array Subscriber)) (s : Subscriber) :
    audience ⟨a.marks ++ [.joined s.subscription], a.own.push s⟩ = a.audience.add s := by
  simp [audience, Audience.add, Mark.note?]

/-- What the scheduled subscriber at a position does when it is called. -/
def scheduled (react : List Request → Act σ (Roll String (Array Subscriber)) Unit) (i : Nat)
    (e : Event) : Act σ (Roll String (Array Subscriber)) Unit := fun w =>
  react ((⟨w.audience.own, #[]⟩ : Audience).call i e).1
    { w with audience :=
      { w.audience with own := ((⟨w.audience.own, #[]⟩ : Audience).call i e).2.subscribers } }

end Roll

theorem Act.marking_viewed {mark : Option Fault → Mark String} (h : ∀ fault, (mark fault).note? = none)
    (x : Act σ (Roll String (Array Subscriber)) α) (w : World σ (Roll String (Array Subscriber))) :
    viewed (World.heard Roll.audience) (x.marking mark w) =
      viewed (World.heard Roll.audience) (x w) := by
  cases hx : x w with
  | ok a v =>
    rw [marking_of_ok hx]
    exact congrArg (fun b => EStateM.Result.ok a (⟨v.machine, v.device, b⟩ : World σ Audience))
      (Roll.audience_add (h none) v.audience)
  | error f v =>
    rw [marking_of_error hx]
    exact congrArg (fun b => EStateM.Result.error f (⟨v.machine, v.device, b⟩ : World σ Audience))
      (Roll.audience_add (h (some f)) v.audience)

/-! ## Announcements -/

namespace Roll

variable {react : List Request → Act σ (Roll String (Array Subscriber)) Unit}
  {perform : List Request → Act σ Audience Unit}

theorem scheduled_engaged (hr : ∀ rs, Engaged d Audience.roster (react rs)) (i : Nat) (e : Event) :
    Engaged d Audience.roster (scheduled react i e) :=
  have closed := Engaged.closed d Audience.roster
  closed.choice (fun w => ((⟨w.audience.own, #[]⟩ : Audience).call i e).1) fun rs =>
    .bind (.note (fun own => ((⟨own, #[]⟩ : Audience).call i e).2.subscribers)
      fun own => Audience.roster_call ⟨own, #[]⟩ i e) fun _ => hr rs

/-- A call is put down as what the subscriber notes, and what it does comes out alike. -/
theorem call_viewed (hshows : ∀ rs, Shows Roll.audience (react rs) (perform rs)) (n : Nat) (e : Event)
    {i : Nat} {kind : EventKind} {tag : String} {w : World σ (Roll String (Array Subscriber))}
    (h : (Audience.roster w.audience.own)[i]? = some ⟨kind, tag⟩) :
    Audience.notifyOne perform e i (w.heard Roll.audience) =
      viewed (World.heard Roll.audience) (call (scheduled react) n e (i, tag) w) := by
  have hcall := Audience.call_eq h w.audience.audience.notes e
  unfold Audience.notifyOne call
  rw [marking_viewed fun _ => rfl]
  simp only [World.heard]
  rw [show w.audience.audience.call i e = _ from hcall]
  unfold scheduled
  rw [← hshows]
  simp only [World.heard, World.marked]
  rw [audience_called]
  rfl

theorem call_keeps_subscribed (hr : ∀ rs, Engaged d Audience.roster (react rs)) (n : Nat) (e : Event)
    (p : Nat × String) {i : Nat} {s : Subscription String} :
    Keeps (fun w : World σ (Roll String (Array Subscriber)) =>
      (Audience.roster w.audience.own)[i]? = some s) (call (scheduled react) n e p) := by
  intro w h
  obtain ⟨marks, -, hwho, -⟩ :=
    (scheduled_engaged hr p.1 e).grows _ (w.marked (.called n p.1 p.2 e)) (.refl _)
  show (Audience.roster (((scheduled react p.1 e).marking (.returned n p.1)).final
    (w.marked (.called n p.1 p.2 e))).audience.own)[i]? = some s
  rw [marking_final_own, hwho]
  exact (List.getElem?_append_left (List.getElem?_eq_some_iff.mp h).1).trans h

theorem calls_viewed (hr : ∀ rs, Engaged d Audience.roster (react rs))
    (hshows : ∀ rs, Shows Roll.audience (react rs) (perform rs)) (n : Nat) (e : Event)
    (l : List (Nat × String)) : ∀ w : World σ (Roll String (Array Subscriber)),
      (∀ p ∈ l, ∃ kind, (Audience.roster w.audience.own)[p.1]? = some ⟨kind, p.2⟩) →
        (l.map Prod.fst).forM (Audience.notifyOne perform e) (w.heard Roll.audience) =
          viewed (World.heard Roll.audience) (l.forM (call (scheduled react) n e) w) := by
  induction l with
  | nil => exact fun _ _ => rfl
  | cons p rest ih =>
    intro w h
    obtain ⟨kind, hp⟩ := h p List.mem_cons_self
    have hone := call_viewed hshows n e hp
    cases hx : call (scheduled react) n e p w with
    | ok u v =>
      rw [hx] at hone
      rw [forM_cons_of_ok hx, List.map_cons, forM_cons_of_ok hone]
      refine ih v fun q hq => ?_
      obtain ⟨kind, hq⟩ := h q (List.mem_cons_of_mem p hq)
      exact ⟨kind, final_of_ok hx ▸ call_keeps_subscribed hr n e p w hq⟩
    | error f v =>
      rw [hx] at hone
      rw [forM_cons_of_error hx, List.map_cons, forM_cons_of_error hone]
      rfl

/-- Announcing an event to scheduled subscribers is announcing it to those subscribed. -/
theorem announce_shows (hr : ∀ rs, Engaged d Audience.roster (react rs))
    (hshows : ∀ rs, Shows Roll.audience (react rs) (perform rs)) (e : Event) :
    Shows Roll.audience (announce Audience.roster (scheduled react) e)
      (Audience.notify perform e) := by
  intro w
  have hopened : (w.marked (.opened w.audience.openings e)).heard Roll.audience =
      w.heard Roll.audience := congrArg (World.mk w.machine w.device) (audience_add rfl w.audience)
  unfold announce Audience.notify
  rw [marking_viewed (fun _ => rfl), Audience.subscribed_eq, ← hopened]
  refine calls_viewed hr hshows w.audience.openings e _ (w.marked _) fun p hp => ?_
  exact ⟨e.kind, mem_due.mp hp⟩

end Roll

/-! ## Requests -/

def Act.Enrolled (d : Device σ) (y : Act σ Audience α) : Prop :=
  ∃ x : Act σ (Roll String (Array Subscriber)) α, Engaged d Audience.roster x ∧
    Shows Roll.audience x y

theorem Act.Enrolled.closed : Closed fun (α : Type) (x : Act σ Audience α) => Enrolled d x :=
  (Engaged.closed d Audience.roster).seen Roll.audience

theorem Act.Enrolled.add (s : Subscriber) : Enrolled d fun w : World σ Audience =>
    .ok () { w with audience := w.audience.add s } := by
  refine ⟨_, .join s.subscription (·.push s) fun own => Audience.roster_push own s, fun w => ?_⟩
  exact congrArg (fun b => EStateM.Result.ok () (⟨w.machine, w.device, b⟩ : World σ Audience))
    (Roll.audience_joined w.audience s).symm

/-- The host announces events to those subscribed, as the view of one that keeps a roll. -/
def Host.Enrolls (h : Host σ Audience) : Prop :=
  ∃ react : Nat → Event → Act σ (Roll String (Array Subscriber)) Unit,
    (∀ i e, Engaged h.device Audience.roster (react i e)) ∧
      (Host.enrolled h.device Audience.roster react).Shows Roll.audience h

theorem Request.perform_enrolled {h : Host σ Audience} (H : h.Enrolls) (r : Request) :
    Enrolled h.device (r.perform h) := by
  obtain ⟨react, hreact, hshows⟩ := H
  exact Enrolled.closed.perform r (fun deed _ => ⟨_, .deed deed hreact, hshows.does deed⟩)
    fun _ tag schedule kind _ => .add ⟨kind, tag, schedule⟩

theorem Audience.notify_enrolls {perform : List Request → Act σ Audience Unit}
    (h : ∀ rs, Enrolled d (perform rs)) : Host.Enrolls ⟨d, notify perform⟩ := by
  choose react hreact hshows using h
  exact ⟨_, Roll.scheduled_engaged hreact, rfl, Roll.announce_shows hreact hshows⟩

/-- Announcing an event to an audience is announcing it to those subscribed, however deep the
subscribers' requests lead. -/
theorem Audience.dispatch_enrolls (d : Device σ) (depth : Nat) :
    Host.Enrolls ⟨d, dispatch d depth⟩ := by
  -- what is announced while subscribers react goes one level less deep
  induction depth with
  | zero => exact notify_enrolls fun _ => Enrolled.closed.pure ()
  | succ depth ih =>
    exact notify_enrolls fun rs => Enrolled.closed.forM rs fun r _ =>
      Enrolled.closed.bind (r.perform_enrolled ih) fun _ => Enrolled.closed.pure ()

/-- What is requested of a machine, one request after the other and also after faults, is made of
what subscribers can do who keep a roll. -/
theorem Request.serve_enrolled (d : Device σ) (rs : List Request) :
    ∃ x : Act σ (Roll String (Array Subscriber)) Unit, Engaged d Audience.roster x ∧
      ∀ w, (x.final w).heard Roll.audience = serve d rs (w.heard Roll.audience) := by
  have fulfil : ∀ r : Request, Enrolled d (r.fulfil d) := fun r =>
    Enrolled.closed.fulfil fun depth => r.perform_enrolled (Audience.dispatch_enrolls d depth)
  obtain ⟨y, ⟨x, hx, hshows⟩, hserve⟩ := Enrolled.closed.serve fulfil rs
  exact ⟨x, hx, fun w => (hshows.final w).symm.trans (hserve _)⟩

/-! ## Main statement -/

/-- Subscribers subscribe, do to the machine whatever can be done to it, and raise and catch faults,
also within announcements. From a blank roll on, each announcement then calls those who are due when
it begins, one after the other and with its event, until one of them is cut short; due is who had
subscribed to the event by then, in order of subscription and once each. The subscriptions made
remain, and who joins is called by announcements only that begin later. Before handlers that only
subscribe an announcement comes to its end, and nothing else is announced meanwhile. The
announcements to scheduled subscribers are of this kind, going as deep as they like, and what is
requested of a machine before them is seen on such a roll. -/
theorem announcements_reach_those_subscribed (d : Device σ) :
    (∀ {ω η : Type} (who : ω → List (Subscription η)) (x : Act σ (Roll η ω) Unit)
      (w v : World σ (Roll η ω)), Engaged d who x → w.audience.marks = [] → x.final w = v →
        Mark.Orderly 0 (who w.audience.own) v.audience.marks ∧
        who v.audience.own = who w.audience.own ++ Mark.joins v.audience.marks ∧
        ∀ (before after : List (Mark η)) (s : Subscription η) (n i : Nat) (handler : η) (e : Event),
          v.audience.marks = before ++ .joined s :: after →
          i = (who w.audience.own ++ Mark.joins before).length →
          .called n i handler e ∈ v.audience.marks →
            handler = s.handler ∧ ∃ mid rest : List (Mark η), after = mid ++ .opened n e :: rest ∧
              .called n i handler e ∈ rest) ∧
    (∀ {η : Type} (subs : List (Subscription η)) (kind : EventKind),
      ((due subs kind).map Prod.fst).Pairwise (· < ·) ∧
      ∀ i handler, (i, handler) ∈ due subs kind ↔ subs[i]? = some ⟨kind, handler⟩) ∧
    (∀ {ω η : Type} (who : ω → List (Subscription η))
      (react : Nat → Event → Act σ (Roll η ω) Unit) (e : Event) (w : World σ (Roll η ω)),
      (∀ i e, Subscribing who (react i e)) → ∃ (v : World σ (Roll η ω)) (marks : List (Mark η)),
        Roll.announce who react e w = .ok () v ∧
        v.audience.marks = w.audience.marks ++ .opened w.audience.openings e :: marks ∧
        Course w.audience.openings e (due (who w.audience.own) e.kind) none
          (Mark.ofNumber w.audience.openings marks) ∧
        ∀ y ∈ marks, y.number? = none ∨ y.number? = some w.audience.openings) ∧
    (∀ depth, Host.Enrolls ⟨d, Audience.dispatch d depth⟩) ∧
    (∀ (r : Request) (w : World σ Audience) (depth : Nat), w.audience.calls + r.calls ≤ depth →
      r.perform ⟨d, Audience.dispatch d depth⟩ w = r.fulfil d w) ∧
    ∀ (m : Machine) (s : σ) (subscribers : Array Subscriber) (rs : List Request),
      ∃ x : Act σ (Roll String (Array Subscriber)) Unit, Engaged d Audience.roster x ∧
        (x.final ⟨m, s, .blank subscribers⟩).heard Roll.audience =
          Request.serve d rs ⟨m, s, ⟨subscribers, #[]⟩⟩ := by
  refine ⟨?_, ?_, ?_, Audience.dispatch_enrolls d, fun r w _ => r.fulfil_eq d w, ?_⟩
  · rintro ω η who x w v hx hblank rfl
    obtain ⟨marks, hmarks, hwho, horderly⟩ := hx.grows _ w (.refl _)
    have hopen : w.audience.openings = 0 := by rw [Roll.openings, hblank]; rfl
    rw [hblank, List.nil_append] at hmarks
    rw [hopen] at horderly
    rw [hmarks]
    exact ⟨horderly, hwho, fun _ _ _ _ _ _ _ => horderly.called_of_joined⟩
  · exact fun subs kind => ⟨due_increasing subs kind, fun i handler => mem_due⟩
  · exact fun who react e w hr => Roll.announce_of_subscribing hr e w
  · intro m s subscribers rs
    obtain ⟨x, hx, hserve⟩ := Request.serve_enrolled d rs
    exact ⟨x, hx, hserve _⟩

/-- One of the handlers sets the cell within the announcement of a cell, one subscribes another to
the same event, and one raises then. The inner announcement calls the three as well; the one that
joined is called by the next announcement only. Of handlers that each subscribe one more, four are
called. -/
theorem announcements_reach_those_subscribed_nested :
    let m : Machine := ⟨.standard, #[], #[0], 0, 0, none, .none, false, false, false⟩
    let subs : List (Subscription String) := [⟨.valueChanged, "again"⟩, ⟨.valueChanged, "adds"⟩,
      ⟨.cursorChanged, "other"⟩, ⟨.valueChanged, "fails"⟩]
    let calm : Nat → Event → Act Buffer (Roll String (List (Subscription String))) Unit :=
      fun _ _ => pure ()
    let late : Subscription String := ⟨.valueChanged, "late"⟩
    let react : Nat → Event → Act Buffer (Roll String (List (Subscription String))) Unit :=
      fun i _ =>
        if i = 0 then (Host.enrolled Buffer.device id calm).does (.setValue 8)
        else if i = 1 then Act.join late (· ++ [late])
        else throw (.raised "enough")
    let x := ((Host.enrolled Buffer.device id react).does (.setValue 7)).attempt >>= fun _ =>
      (Host.enrolled Buffer.device id calm).does (.setValue 9)
    Engaged Buffer.device id x ∧ ∃ v, x.final ⟨m, .ofInput "" [], .blank subs⟩ = v ∧
      Mark.ofNumber 0 v.audience.marks =
        [.opened 0 (.valueChanged 7), .called 0 0 "again" (.valueChanged 7), .returned 0 0 none,
          .called 0 1 "adds" (.valueChanged 7), .returned 0 1 none,
          .called 0 3 "fails" (.valueChanged 7), .returned 0 3 (some (.raised "enough")),
          .closed 0 (some (.raised "enough"))] ∧
      Mark.joins v.audience.marks = [late] ∧ v.audience.own = subs ++ [late] ∧
      .called 2 4 "late" (.valueChanged 9) ∈ v.audience.marks ∧
      Mark.Orderly 0 subs v.audience.marks ∧
      ∃ (u : World Buffer (Roll String (List (Subscription String)))) (marks : List (Mark String)),
        Roll.announce id (fun _ _ => Act.join late (· ++ [late])) (.valueChanged 7) v = .ok () u ∧
        u.audience.own.length = 9 ∧ u.audience.openings = 4 ∧
        Course 3 (.valueChanged 7) [(0, "again"), (1, "adds"), (3, "fails"), (4, "late")] none
          (Mark.ofNumber 3 marks) := by
  intro m subs calm late react x
  have hcalm : ∀ i e, Engaged Buffer.device id (calm i e) := fun _ _ => .look fun _ => ()
  have hreact : ∀ i e, Engaged Buffer.device id (react i e) := fun i _ => by
    by_cases h₀ : i = 0
    · simpa [react, h₀] using Engaged.deed (.setValue 8) hcalm
    · by_cases h₁ : i = 1
      · simpa [react, h₀, h₁] using Engaged.join late (· ++ [late]) fun _ => rfl
      · simpa [react, h₀, h₁] using Engaged.raise (.raised "enough")
  have hx : Engaged Buffer.device id x :=
    .bind ((Engaged.closed _ _).attempt (.deed _ hreact)) fun _ => .deed _ hcalm
  obtain ⟨history, -, bounded, -⟩ := announcements_reach_those_subscribed Buffer.device
  obtain ⟨horderly, hwho, -⟩ := history id x ⟨m, .ofInput "" [], .blank subs⟩ _ hx rfl rfl
  obtain ⟨u, marks, hu, -, hcourse, -⟩ := bounded id (fun _ _ => Act.join late (· ++ [late]))
    (.valueChanged 7) (x.final ⟨m, .ofInput "" [], .blank subs⟩) fun _ _ => .join late _ fun _ => rfl
  have hjoins : Mark.joins (x.final ⟨m, .ofInput "" [], .blank subs⟩).audience.marks = [late] := by
    decide
  have hopen : (x.final ⟨m, .ofInput "" [], .blank subs⟩).audience.openings = 3 := by decide
  have hdue : due (id (x.final ⟨m, .ofInput "" [], .blank subs⟩).audience.own)
      (Event.valueChanged 7).kind = [(0, "again"), (1, "adds"), (3, "fails"), (4, "late")] := by
    decide
  have hsize : u.audience.own.length = 9 ∧ u.audience.openings = 4 := by
    rw [← final_of_ok hu]
    decide
  rw [hopen, hdue] at hcourse
  exact ⟨hx, _, rfl, by decide, hjoins, hjoins ▸ hwho, by decide, horderly, u, marks, hu, hsize.1,
    hsize.2, hcourse⟩

end Moo
