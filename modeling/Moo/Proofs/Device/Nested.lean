import Moo.Proofs.Device.Overrides

/-!
# Layers as overrides

Each layer of a layered device is an override that has its answers for a state, and the device is
its base beneath these overrides (`Layered.transcript_eq`, `Layered.after_eq`). So what is true of
overrides is true of layers: the base is left as by the calls that no layer overrides
(`Layered.base_after`), and the layers have noted the others (`Layered.calls_after`).
-/

namespace Moo

variable {σ : Type}

namespace Layer

variable {channel : Channel} {layers : List Layer}

def takes (l : Layer) : Operation → Bool
  | .read channel => (l.reads.map Prod.fst).contains channel
  | .write channel => l.writes.contains channel

theorem isSome_answer? {reads : List (Channel × Answers)} :
    (answer? channel reads).isSome = (reads.map Prod.fst).contains channel := by
  induction reads with
  | nil => rfl
  | cons r rest ih =>
    obtain ⟨c, a⟩ := r
    rw [answer?, List.map_cons, List.contains_cons]
    by_cases h : c = channel
    · rw [if_pos h, h, beq_self_eq_true]
      rfl
    · have hne : (channel == c) = false := beq_eq_false_iff_ne.mpr (Ne.symm h)
      rw [if_neg h, hne, Option.isSome_map, ih, Bool.false_or]

theorem channels_of_answer? {reads reads' : List (Channel × Answers)} {n : Int}
    (h : answer? channel reads = some (n, reads')) :
    reads'.map Prod.fst = reads.map Prod.fst := by
  induction reads generalizing reads' with
  | nil => cases h
  | cons r rest ih =>
    obtain ⟨c, a⟩ := r
    rw [answer?] at h
    split at h
    · cases h
      rfl
    · obtain ⟨⟨m, rest'⟩, hrest, heq⟩ := Option.map_eq_some_iff.mp h
      cases heq
      rw [List.map_cons, List.map_cons, ih hrest]

theorem takes_of_answer? {l : Layer} {reads : List (Channel × Answers)} {n : Int}
    (h : answer? channel l.reads = some (n, reads)) : takes { l with reads } = l.takes := by
  funext operation
  cases operation with
  | read c => exact congrArg (List.contains · c) (channels_of_answer? h)
  | write c => rfl

theorem isSome_answerThrough? :
    (answerThrough? channel layers).isSome = layers.any (·.takes (.read channel)) := by
  induction layers with
  | nil => rfl
  | cons l below ih =>
    have hl : l.takes (.read channel) = (answer? channel l.reads).isSome := isSome_answer?.symm
    rw [answerThrough?, List.any_cons, hl]
    cases answer? channel l.reads with
    | none => exact Option.isSome_map.trans ih
    | some p => rfl

theorem takes_of_answerThrough? {layers' : List Layer} {n : Int}
    (h : answerThrough? channel layers = some (n, layers')) :
    layers'.map takes = layers.map takes := by
  induction layers generalizing layers' with
  | nil => cases h
  | cons l below ih =>
    rw [answerThrough?] at h
    split at h
    · next hl =>
      cases h
      rw [List.map_cons, List.map_cons, takes_of_answer? hl]
    · obtain ⟨⟨m, below'⟩, hbelow, heq⟩ := Option.map_eq_some_iff.mp h
      cases heq
      rw [List.map_cons, List.map_cons, ih hbelow]

/-! ## The overrides of layers -/

/-- What the overrides of layers have for a state: the layers with the answers left, and the calls
that they took. -/
abbrev Stock := List Layer × Array Call

def answerAt? (i : Nat) (channel : Channel) (layers : List Layer) : Option (Int × List Layer) :=
  (layers[i]?).bind fun l => (answer? channel l.reads).map fun p =>
    (p.1, layers.set i { l with reads := p.2 })

/-- Answer a read from the layer at a place. -/
def answerFrom (i : Nat) (channel : Channel) : EStateM Fault Stock Int := fun p =>
  match answerAt? i channel p.1 with
  | some (n, layers) => .ok n (layers, p.2.push ⟨.read channel, none⟩)
  -- not reached: a layer that overrides a read has answers to it
  | none => .error (.exhausted .integer) p

def drop (channel : Channel) (value : Int) : EStateM Fault Stock Unit := fun p =>
  .ok () (p.1, p.2.push ⟨.write channel, some value⟩)

/-- The override of the layer at a place that overrides these operations. -/
def actions (takes : Operation → Bool) (i : Nat) : Override Stock where
  read channel := if takes (.read channel) then some (answerFrom i channel) else none
  write channel := if takes (.write channel) then some (drop channel) else none

section

variable {takes : Operation → Bool} {i : Nat} {a : Ask}

theorem serve?_actions_of_not (h : takes a.operation = false) :
    (actions takes i).serve? a = none := by
  have hif : ∀ {α : Type} (x : Option α), (if takes a.operation = true then x else none) = none :=
    fun x => if_neg (Bool.eq_false_iff.mp h)
  cases a with
  | read channel => exact congrArg (Option.map _) (hif _)
  | write channel value => exact congrArg (Option.map _) (hif _)

theorem serve?_actions_read (h : takes (.read channel) = true) :
    (actions takes i).serve? (.read channel) = some (replying some (answerFrom i channel)) :=
  congrArg (Option.map _) (if_pos h)

theorem serve?_actions_write {value : Int} (h : takes (.write channel) = true) :
    (actions takes i).serve? (.write channel value) =
      some (replying (fun _ => none) (drop channel value)) :=
  congrArg (Option.map _) (if_pos h)

end

def actionsFrom (i : Nat) (layers : List Layer) : List (Override Stock) :=
  ((layers.map takes).zipIdx i).map fun q => actions q.1 q.2

theorem actionsFrom_cons (i : Nat) (l : Layer) (below : List Layer) :
    actionsFrom i (l :: below) = actions l.takes i :: actionsFrom (i + 1) below := rfl

theorem takes_actions (takes : Operation → Bool) (i : Nat) (operation : Operation) :
    (actions takes i).takes operation = takes operation := by
  cases operation with
  | read channel =>
    show (if _ then some _ else none).isSome = _
    cases takes (.read channel) <;> rfl
  | write channel =>
    show (if _ then some _ else none).isSome = _
    cases takes (.write channel) <;> rfl

theorem any_takes_actionsFrom (operation : Operation) (i : Nat) (layers : List Layer) :
    (actionsFrom i layers).any (·.takes operation) = layers.any (·.takes operation) := by
  induction layers generalizing i with
  | nil => rfl
  | cons l below ih => rw [actionsFrom_cons, List.any_cons, List.any_cons, takes_actions, ih]

theorem answerAt?_append (pre : List Layer) (l : Layer) (below : List Layer) :
    answerAt? pre.length channel (pre ++ l :: below) =
      (answer? channel l.reads).map fun p => (p.1, pre ++ { l with reads := p.2 } :: below) := by
  have hset : ∀ l', (pre ++ l :: below).set pre.length l' = pre ++ l' :: below := by simp
  unfold answerAt?
  rw [List.getElem?_append_right (Nat.le_refl _), Nat.sub_self, List.getElem?_cons_zero,
    Option.bind_some]
  simp only [hset]

/-- The first override that has an action for a read gives the answer of the outermost layer that
overrides it. -/
theorem read_actionsFrom (layers pre : List Layer) (calls : Array Call) :
    (((actionsFrom pre.length layers).findSome? fun o => o.serve? (.read channel)).map fun f =>
        f (pre ++ layers, calls)) =
      (answerThrough? channel layers).map fun p =>
        (.ok (some p.1), (pre ++ p.2, calls.push ⟨.read channel, none⟩)) := by
  induction layers generalizing pre with
  | nil => rfl
  | cons l below ih =>
    have htakes : l.takes (.read channel) = (answer? channel l.reads).isSome := isSome_answer?.symm
    rw [actionsFrom_cons, List.findSome?_cons, answerThrough?]
    cases ha : answer? channel l.reads with
    | none =>
      rw [ha] at htakes
      have hbelow := ih (pre ++ [l])
      rw [List.length_append, List.append_assoc] at hbelow
      rw [serve?_actions_of_not htakes]
      refine hbelow.trans ?_
      rw [Option.map_map]
      refine Option.map_congr fun p _ => ?_
      simp
    | some p =>
      rw [ha] at htakes
      have hat : answerAt? pre.length channel (pre ++ l :: below) = _ := answerAt?_append pre l below
      rw [ha] at hat
      rw [serve?_actions_read htakes]
      show some (replying some (answerFrom pre.length channel) (pre ++ l :: below, calls)) = _
      unfold replying answerFrom
      rw [hat]
      rfl

/-- A write that some override has an action for is dropped. -/
theorem write_actionsFrom (value : Int) (layers : List Layer) (i : Nat) (p : Stock) :
    (((actionsFrom i layers).findSome? fun o => o.serve? (.write channel value)).map fun f => f p) =
      if layers.any (·.writes.contains channel) then
        some (.ok none, (p.1, p.2.push ⟨.write channel, some value⟩))
      else none := by
  induction layers generalizing i with
  | nil => rfl
  | cons l below ih =>
    rw [actionsFrom_cons, List.findSome?_cons, List.any_cons]
    cases hwrites : l.writes.contains channel with
    | true =>
      rw [serve?_actions_write hwrites]
      rfl
    | false =>
      rw [serve?_actions_of_not hwrites]
      exact ih (i + 1)

end Layer

/-! ## Layered devices -/

def Ask.call : Ask → Call
  | .read channel => ⟨.read channel, none⟩
  | .write channel value => ⟨.write channel, some value⟩

namespace Layered

variable {d : Device σ}

/-- The state as one of overrides and one of the base. -/
def parts (s : Layered σ) : Layer.Stock × σ := ((s.layers, s.calls), s.base)

def overrides (s : Layered σ) : List (Override Layer.Stock) := Layer.actionsFrom 0 s.layers

theorem serve_read (channel : Channel) (s : Layered σ) :
    (device d).serve (.read channel) s =
      ((Layer.answerThrough? channel s.layers).map fun p =>
          (.ok (some p.1), ⟨p.2, s.base, s.calls.push ⟨.read channel, none⟩⟩)).getD
        ((d.serve (.read channel) s.base).1, { s with base := (d.serve (.read channel) s.base).2 }) := by
  show replying some (Layered.read d channel) s = _
  unfold replying Layered.read Device.serve replying
  cases ha : Layer.answerThrough? channel s.layers with
  | some p => simp only [ha, Option.map_some, Option.getD_some]
  | none => cases hd : d.read channel s.base <;> simp only [ha, hd, Option.map_none, Option.getD_none]

theorem serve_write (channel : Channel) (value : Int) (s : Layered σ) :
    (device d).serve (.write channel value) s =
      if s.layers.any (·.writes.contains channel) then
        (.ok none, ⟨s.layers, s.base, s.calls.push ⟨.write channel, some value⟩⟩)
      else
        ((d.serve (.write channel value) s.base).1,
          { s with base := (d.serve (.write channel value) s.base).2 }) := by
  show replying (fun _ => none) (Layered.write d channel value) s = _
  unfold replying Layered.write Device.serve replying
  cases ha : s.layers.any (·.writes.contains channel) with
  | true => simp only [ha, if_true]
  | false => cases hd : d.write channel value s.base <;>
      simp only [ha, hd, Bool.false_eq_true, if_false]

theorem anyTakes_overrides (a : Ask) (s : Layered σ) :
    Override.anyTakes s.overrides a = s.layers.any (·.takes a.operation) := by
  unfold Override.anyTakes overrides
  rw [Layer.any_takes_actionsFrom]

theorem serve_eq (a : Ask) (s : Layered σ) :
    (d.beneath s.overrides).serve a s.parts =
      (((device d).serve a s).1, ((device d).serve a s).2.parts) := by
  cases a with
  | read channel =>
    have hread : ((s.overrides.findSome? fun o => o.serve? (.read channel)).map fun f => f s.parts.1) =
        (Layer.answerThrough? channel s.layers).map fun p =>
          (.ok (some p.1), (p.2, s.calls.push ⟨.read channel, none⟩)) :=
      Layer.read_actionsFrom s.layers [] s.calls
    rw [Device.serve_beneath, hread, serve_read]
    cases Layer.answerThrough? channel s.layers <;> rfl
  | write channel value =>
    have hwrite : ((s.overrides.findSome? fun o => o.serve? (.write channel value)).map fun f =>
          f s.parts.1) =
        if s.layers.any (·.writes.contains channel) then
          some (.ok none, (s.layers, s.calls.push ⟨.write channel, some value⟩))
        else none :=
      Layer.write_actionsFrom value s.layers 0 s.parts.1
    rw [Device.serve_beneath, hwrite, serve_write]
    cases s.layers.any (·.writes.contains channel) <;> rfl

theorem overrides_serve (a : Ask) (s : Layered σ) :
    ((device d).serve a s).2.overrides = s.overrides := by
  have htakes : ((device d).serve a s).2.layers.map Layer.takes = s.layers.map Layer.takes := by
    cases a with
    | read channel =>
      rw [serve_read]
      cases ha : Layer.answerThrough? channel s.layers with
      | some p => exact Layer.takes_of_answerThrough? ha
      | none => rfl
    | write channel value =>
      rw [serve_write]
      split <;> rfl
  unfold overrides Layer.actionsFrom
  rw [htakes]

theorem transcript_eq (asks : List Ask) (s : Layered σ) :
    (device d).transcript asks s = (d.beneath s.overrides).transcript asks s.parts := by
  induction asks generalizing s with
  | nil => rfl
  | cons a rest ih => rw [Device.transcript, Device.transcript, serve_eq, ih, overrides_serve]

theorem after_eq (asks : List Ask) (s : Layered σ) :
    ((device d).after asks s).parts = (d.beneath s.overrides).after asks s.parts := by
  induction asks generalizing s with
  | nil => rfl
  | cons a rest ih => rw [Device.after, Device.after, serve_eq, ih, overrides_serve]

/-- The base is left in the state in which the calls leave it that no layer overrides. -/
theorem base_after (asks : List Ask) (s : Layered σ) :
    ((device d).after asks s).base =
      d.after (asks.filter fun a => !s.layers.any (·.takes a.operation)) s.base := by
  have hleft := (Device.left_beneath d s.overrides).after asks s.parts
  simp only [anyTakes_overrides] at hleft
  exact (congrArg Prod.snd (after_eq asks s)).trans hleft

theorem calls_serve (a : Ask) (s : Layered σ) :
    ((device d).serve a s).2.calls =
      if s.layers.any (·.takes a.operation) then s.calls.push a.call else s.calls := by
  cases a with
  | read channel =>
    have htaken : s.layers.any (·.takes (Ask.read channel).operation) = _ :=
      Layer.isSome_answerThrough?.symm
    rw [serve_read, htaken]
    cases Layer.answerThrough? channel s.layers <;> rfl
  | write channel value =>
    have htaken : s.layers.any (·.takes (Ask.write channel value).operation) =
      s.layers.any (·.writes.contains channel) := rfl
    rw [serve_write, htaken]
    split <;> rfl

/-- The calls that some layer overrides are noted once and in order. -/
theorem calls_after (asks : List Ask) (s : Layered σ) :
    ((device d).after asks s).calls =
      s.calls ++ ((asks.filter fun a => s.layers.any (·.takes a.operation)).map Ask.call).toArray := by
  induction asks generalizing s with
  | nil => exact Array.append_empty.symm
  | cons a rest ih =>
    rw [Device.after, ih, calls_serve, List.filter_cons]
    simp only [← anyTakes_overrides, overrides_serve]
    cases Override.anyTakes s.overrides a <;> simp

end Layered

/-! ## Main statement -/

variable {τ ω : Type}

/-- Of a device under overrides, whatever their actions do: each call reaches the first override
that has an action for it, or the device if none has, once and as it was made; two overrides on top
of each other are one with the actions of both, those of the outer one first. Where the overrides
have a state of their own, the calls that none of them has an action for are served as by the device
alone, and the others as above any other device. A record of the writes is kept by overriding them,
and no call can tell. A layered device is its base under the overrides of its layers. -/
theorem overrides_compose :
    (∀ (d : Device ω) (layers : List (Override ω)) (asks : List Ask) (w : ω),
      (d.notedNest layers).transcript asks (w, []) = (d.nest layers).transcript asks w ∧
      (d.notedNest layers).after asks (w, []) =
        ((d.nest layers).after asks w,
          asks.map fun a => (layers.findIdx (·.takes a.operation), a))) ∧
    (∀ (d : Device ω) (inner outer : Override ω),
      (d.override inner).override outer = d.override (outer.merge inner)) ∧
    (∀ (d : Device σ) (layers : List (Override τ)) (asks : List Ask) (t : τ) (s : σ),
      ((d.beneath layers).transcript asks (t, s)).filter (fun x => !Override.anyTakes layers x.1) =
        d.transcript (asks.filter fun a => !Override.anyTakes layers a) s ∧
      ((d.beneath layers).after asks (t, s)).2 =
        d.after (asks.filter fun a => !Override.anyTakes layers a) s ∧
      ∀ e : Device τ,
        ((d.beneath layers).transcript asks (t, s)).filter (fun x => Override.anyTakes layers x.1) =
          (e.nest layers).transcript (asks.filter (Override.anyTakes layers)) t ∧
        ((d.beneath layers).after asks (t, s)).1 =
          (e.nest layers).after (asks.filter (Override.anyTakes layers)) t) ∧
    (∀ (d : Device σ) (asks : List Ask) (s : σ × Array Output),
      d.recording = (d.onPart Prod.fst fun _ s p => (s, p.2)).override d.mirror ∧
      d.recording.transcript asks s = d.transcript asks s.1 ∧
      d.recording.after asks s =
        (d.after asks s.1, s.2 ++ (asks.filterMap Ask.output?).toArray)) ∧
    ∀ (d : Device σ) (asks : List Ask) (s : Layered σ),
      (Layered.device d).transcript asks s = (d.beneath s.overrides).transcript asks s.parts ∧
      ((Layered.device d).after asks s).parts = (d.beneath s.overrides).after asks s.parts ∧
      ((Layered.device d).after asks s).base =
        d.after (asks.filter fun a => !s.layers.any (·.takes a.operation)) s.base ∧
      ((Layered.device d).after asks s).calls = s.calls ++
        ((asks.filter fun a => s.layers.any (·.takes a.operation)).map Ask.call).toArray := by
  refine ⟨fun d layers asks w => ?_, Device.override_override, fun d layers asks t s => ?_,
    fun d asks s => ?_, fun d asks s => ?_⟩
  · exact ⟨d.transcript_notedNest layers asks (w, []), d.after_notedNest layers asks (w, [])⟩
  · have hleft := Device.left_beneath d layers
    refine ⟨hleft.transcript asks (t, s), hleft.after asks (t, s), fun e => ?_⟩
    have htaken := Device.taken_beneath d e layers
    exact ⟨htaken.transcript asks (t, s), htaken.after asks (t, s)⟩
  · exact ⟨d.recording_eq, d.transcript_recording asks s, d.after_recording asks s⟩
  · exact ⟨Layered.transcript_eq asks s, Layered.after_eq asks s, Layered.base_after asks s,
      Layered.calls_after asks s⟩

end Moo
