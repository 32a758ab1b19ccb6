import Moo.Proofs.Audience.Closure

/-!
# Depth

The schedules of an audience provide for so many calls (`Audience.calls`). A subscriber that asks
for something uses up one of them before it does, so announcements nest no deeper than the schedules
provide for, and the depth to which an event is announced is never what ends it
(`Request.fulfil_eq`).
-/

namespace Moo

open Act

variable {σ : Type} {α β : Type}

/-! ## Calls provided for -/

theorem Request.next?_calls {schedule left : List (Nat × List Request)} {requests : List Request}
    (h : Request.next? schedule = some (requests, left)) :
    callsOfSchedule schedule = callsOfSchedule left + callsOfList requests + 1 := by
  induction schedule with
  | nil => cases h
  | cons head rest ih =>
    obtain ⟨times, rs⟩ := head
    cases times with
    | zero =>
      rw [callsOfSchedule, ih h]
      omega
    | succ times =>
      cases h
      rw [callsOfSchedule, callsOfSchedule, Nat.succ_mul]
      omega

namespace Audience

theorem foldl_calls (l : List Subscriber) : ∀ n : Nat,
    l.foldl (fun n s => n + Request.callsOfSchedule s.schedule) n =
      n + l.foldl (fun n s => n + Request.callsOfSchedule s.schedule) 0 := by
  induction l with
  | nil => exact fun _ => rfl
  | cons s rest ih =>
    intro n
    rw [List.foldl_cons, List.foldl_cons, ih (n + _), ih (0 + _)]
    omega

theorem calls_of_split {a : Audience} {s : Subscriber} {before after : List Subscriber}
    (h : a.subscribers.toList = before ++ s :: after) :
    a.calls = before.foldl (fun n s => n + Request.callsOfSchedule s.schedule) 0 +
      Request.callsOfSchedule s.schedule +
        after.foldl (fun n s => n + Request.callsOfSchedule s.schedule) 0 := by
  rw [calls, h, List.foldl_append, List.foldl_cons, foldl_calls after]

theorem calls_add (a : Audience) (s : Subscriber) :
    (a.add s).calls = a.calls + Request.callsOfSchedule s.schedule := by
  simp [calls, add]

theorem calls_call (a : Audience) (i : Nat) (e : Event) :
    ((a.call i e).1 = [] ∧ (a.call i e).2.calls = a.calls) ∨
      (a.call i e).2.calls + Request.callsOfList (a.call i e).1 + 1 = a.calls := by
  unfold call
  cases hi : a.subscribers[i]? with
  | none => exact .inl ⟨rfl, rfl⟩
  | some s =>
    cases hs : Request.next? s.schedule with
    | none =>
      simp only [hs]
      exact .inl ⟨trivial, rfl⟩
    | some p =>
      obtain ⟨requests, left⟩ := p
      have hused := Request.next?_calls hs
      obtain ⟨hlt, hat⟩ := List.getElem?_eq_some_iff.mp (Array.getElem?_toList ▸ hi)
      obtain ⟨before, after, hsplit, -, hset⟩ : ∃ before after,
          a.subscribers.toList = before ++ a.subscribers.toList[i] :: after ∧ before.length = i ∧
            a.subscribers.toList.set i { s with schedule := left } =
              before ++ { s with schedule := left } :: after := List.exists_of_set hlt
      rw [hat] at hsplit
      rw [← Array.toList_setIfInBounds] at hset
      have hbefore := calls_of_split hsplit
      have hafter := calls_of_split (a := ⟨a.subscribers.setIfInBounds i { s with schedule := left },
        a.notes.push ⟨s.tag, e⟩⟩) hset
      dsimp only at hafter
      simp only [hs]
      omega

end Audience

/-! ## Agreement -/

/-- Before an audience that provides, with `c` calls more, for at most `n`, the second action does
what the first does, and that leaves at most `c` calls more than there were. -/
def Act.Concur (n c : Nat) (x y : Act σ Audience α) : Prop :=
  ∀ w, w.audience.calls + c ≤ n →
    y w = x w ∧ (x.final w).audience.calls ≤ w.audience.calls + c

namespace Act.Concur

variable {n c c' : Nat}

theorem bind {x y : Act σ Audience α} {f g : α → Act σ Audience β} (hx : Concur n c x y)
    (hf : ∀ a, Concur n c' (f a) (g a)) : Concur n (c + c') (x >>= f) (y >>= g) := by
  intro w hw
  obtain ⟨hxy, hle⟩ := hx w (by omega)
  rw [bind_congr_at hxy g]
  cases hr : x w with
  | ok a v =>
    rw [final_of_ok hr] at hle
    obtain ⟨hfg, hle'⟩ := hf a v (by omega)
    rw [bind_of_ok hr, bind_of_ok hr, final_congr (bind_of_ok hr f)]
    exact ⟨hfg, by omega⟩
  | error e v =>
    rw [final_of_error hr] at hle
    rw [bind_of_error hr, bind_of_error hr, final_of_error (bind_of_error hr f)]
    exact ⟨rfl, by omega⟩

theorem recover {x y : Act σ Audience α} {f g : Fault → Act σ Audience α} (hx : Concur n 0 x y)
    (hf : ∀ e, Concur n 0 (f e) (g e)) : Concur n 0 (x.recover f) (y.recover g) := by
  intro w hw
  obtain ⟨hxy, hle⟩ := hx w hw
  cases hr : x w with
  | ok a v =>
    rw [final_of_ok hr] at hle
    rw [recover_of_ok hr, recover_of_ok (hxy.trans hr), final_of_ok (recover_of_ok hr)]
    exact ⟨rfl, hle⟩
  | error e v =>
    rw [final_of_error hr] at hle
    obtain ⟨hfg, hle'⟩ := hf e v (by omega)
    rw [recover_of_error hr, recover_of_error (hxy.trans hr), final_congr (recover_of_error hr)]
    exact ⟨hfg, by omega⟩

theorem congruent (n : Nat) : Congruent fun (α : Type) (x y : Act σ Audience α) => Concur n 0 x y where
  look _ := fun _ _ => ⟨rfl, Nat.le_refl _⟩
  throw _ := fun _ _ => ⟨rfl, Nat.le_refl _⟩
  bind hx hf := bind hx hf
  recover hx hf := recover hx hf

end Act.Concur

section

variable {n : Nat} {h k : Host σ Audience}

theorem Host.does_concur (hd : k.device = h.device)
    (ha : ∀ e, Concur n 0 (h.announce e) (k.announce e)) (deed : Deed) :
    Concur n 0 (h.does deed) (k.does deed) := by
  intro w hw
  have keeps : ∀ e, Keeps (fun v => v.audience.calls ≤ w.audience.calls) (h.announce e) :=
    fun e v hv => Nat.le_trans (ha e v (Nat.le_trans hv hw)).2 hv
  refine ⟨Host.does_eq_of_audience (J := fun a => a.calls ≤ w.audience.calls) hd keeps
    (fun e v hv => ?_) deed (Nat.le_refl _), ?_⟩
  · exact (ha e v (Nat.le_trans hv hw)).1
  · exact Host.does_keeps_audience (J := fun a => a.calls ≤ w.audience.calls) keeps deed w
      (Nat.le_refl _)

theorem Request.perform_concur (hd : k.device = h.device)
    (ha : ∀ e, Concur n 0 (h.announce e) (k.announce e)) (r : Request) :
    Concur n r.calls (r.perform h) (r.perform k) := by
  by_cases hr : ∃ event tag schedule, r = .subscribe event tag schedule
  · obtain ⟨event, tag, schedule, rfl⟩ := hr
    intro w _
    refine ⟨rfl, ?_⟩
    unfold Act.final
    rw [Request.perform]
    cases EventKind.named? event with
    | none => exact Nat.le_add_right _ _
    | some kind => exact Nat.le_of_eq (w.audience.calls_add ⟨kind, tag, schedule⟩)
  · have hcalls : r.calls = 0 := by
      cases r with
      | subscribe event tag schedule => exact absurd ⟨event, tag, schedule, rfl⟩ hr
      | _ => rfl
    rw [hcalls]
    exact (Concur.congruent n).perform r (fun deed _ => Host.does_concur hd ha deed)
      fun event tag schedule _ h => absurd ⟨event, tag, schedule, h⟩ hr

theorem Request.performs_concur (hd : k.device = h.device)
    (ha : ∀ e, Concur n 0 (h.announce e) (k.announce e)) (rs : List Request) :
    Concur n (callsOfList rs) (rs.forM fun r => do let _ ← r.perform h)
      (rs.forM fun r => do let _ ← r.perform k) := by
  induction rs with
  | nil => exact (Concur.congruent n).pure ()
  | cons r rest ih =>
    have hone : Concur n r.calls (do let _ ← r.perform h) (do let _ ← r.perform k) :=
      (Request.perform_concur hd ha r).bind fun _ => (Concur.congruent n).pure ()
    exact hone.bind fun _ => ih

end

namespace Audience

variable {n : Nat} {react react' : List Request → Act σ Audience Unit}

theorem notifyOne_concur (hnil : ∀ w, react [] w = .ok () w ∧ react' [] w = .ok () w)
    (hr : ∀ m, m + 1 = n → ∀ rs, Concur m (Request.callsOfList rs) (react rs) (react' rs))
    (e : Event) (i : Nat) : Concur n 0 (notifyOne react e i) (notifyOne react' e i) := by
  intro w hw
  have hdone : ∀ react : List Request → Act σ Audience Unit, notifyOne react e i w =
      react (w.audience.call i e).1 ⟨w.machine, w.device, (w.audience.call i e).2⟩ := fun _ => rfl
  rw [hdone, hdone, final_congr (hdone react)]
  rcases w.audience.calls_call i e with ⟨hrs, hcalls⟩ | hcalls
  · rw [hrs, final_of_ok (hnil _).1, (hnil _).1, (hnil _).2]
    exact ⟨rfl, Nat.le_of_eq hcalls⟩
  · obtain ⟨m, rfl⟩ : ∃ m, m + 1 = n := ⟨n - 1, by omega⟩
    obtain ⟨heq, hle⟩ := hr m rfl (w.audience.call i e).1
      ⟨w.machine, w.device, (w.audience.call i e).2⟩ (by dsimp only; omega)
    exact ⟨heq, by dsimp only at hle; omega⟩

theorem notify_concur (hnil : ∀ w, react [] w = .ok () w ∧ react' [] w = .ok () w)
    (hr : ∀ m, m + 1 = n → ∀ rs, Concur m (Request.callsOfList rs) (react rs) (react' rs))
    (e : Event) : Concur n 0 (notify react e) (notify react' e) := fun w hw =>
  (Concur.congruent n).forM (w.audience.subscribed e.kind)
    (fun i _ => notifyOne_concur hnil hr e i) w hw

/-- A depth that the schedules provide for is as good as any greater one. -/
theorem dispatch_concur (d : Device σ) : ∀ (n depth : Nat), n ≤ depth → ∀ e,
    Concur n 0 (dispatch d n e) (dispatch d depth e) := by
  intro n
  induction n with
  | zero =>
    intro depth _
    cases depth with
    | zero => exact notify_concur (fun _ => ⟨rfl, rfl⟩) nofun
    | succ depth => exact notify_concur (fun _ => ⟨rfl, rfl⟩) nofun
  | succ n ih =>
    intro depth hle
    obtain ⟨depth, rfl⟩ : ∃ m, depth = m + 1 := ⟨depth - 1, by omega⟩
    refine notify_concur (fun _ => ⟨rfl, rfl⟩) fun m hm rs => ?_
    obtain rfl : m = n := by omega
    exact Request.performs_concur (h := ⟨d, dispatch d m⟩) (k := ⟨d, dispatch d depth⟩) rfl
      (ih depth (by omega)) rs

end Audience

/-- Fulfilling a request is doing what is requested before subscribers that may go as deep as they
like. -/
theorem Request.fulfil_eq (d : Device σ) (r : Request) (w : World σ Audience) {depth : Nat}
    (h : w.audience.calls + r.calls ≤ depth) :
    r.perform ⟨d, Audience.dispatch d depth⟩ w = r.fulfil d w :=
  (Request.perform_concur (h := ⟨d, Audience.dispatch d (w.audience.calls + r.calls)⟩)
    (k := ⟨d, Audience.dispatch d depth⟩) rfl (Audience.dispatch_concur d _ depth h) r w
    (Nat.le_refl _)).1

end Moo
