import Moo.Proofs.Device.Serving

/-!
# Overrides

An override has actions of its own for some operations of a device; whatever it has none for is left
to the device. Overrides can be put on top of each other (`Device.nest`). A call then goes to the
first of them that has an action for it, or to the device if none has, and to nothing else
(`Device.serve_nest`, `Device.after_notedNest`). Where the actions stay away from the state of the
device, a sequence of calls falls into two that know nothing of each other: the calls taken by
overrides, and those left to the device (`Device.taken_beneath`, `Device.left_beneath`).
-/

namespace Moo

variable {σ τ ω : Type} {α : Type}

/-- Actions in the place of some operations of a device. They may do anything to the state. -/
structure Override (σ : Type) where
  read : Channel → Option (EStateM Fault σ Int)
  write : Channel → Option (Int → EStateM Fault σ Unit)

namespace Override

variable {o : Override σ} {a : Ask}

def takes (o : Override σ) : Operation → Bool
  | .read channel => (o.read channel).isSome
  | .write channel => (o.write channel).isSome

def serve? (o : Override σ) : Ask → Option (σ → Response × σ)
  | .read channel => (o.read channel).map (replying some)
  | .write channel value => (o.write channel).map fun x => replying (fun _ => none) (x value)

theorem isSome_serve? : (o.serve? a).isSome = o.takes a.operation := by
  cases a with
  | read channel => exact Option.isSome_map
  | write channel value => exact Option.isSome_map

/-- The actions of both, those of the first where both have one. -/
def merge (outer inner : Override σ) : Override σ where
  read channel := (outer.read channel).or (inner.read channel)
  write channel := (outer.write channel).or (inner.write channel)

end Override

namespace Device

variable {d : Device σ} {layers : List (Override σ)}

def override (d : Device σ) (o : Override σ) : Device σ where
  read channel := (o.read channel).getD (d.read channel)
  write channel := (o.write channel).getD (d.write channel)

/-- The device under overrides, the outermost first. -/
def nest (d : Device σ) (layers : List (Override σ)) : Device σ :=
  layers.foldr (fun o inner => inner.override o) d

theorem serve_override (o : Override σ) (a : Ask) :
    (d.override o).serve a = (o.serve? a).getD (d.serve a) := by
  cases a with
  | read channel => exact (Option.getD_map (replying some) _ _).symm
  | write channel value =>
    exact (Option.getD_map (fun x => replying (fun _ => none) (x value)) (d.write channel) _).symm

/-- A call goes to the first override that has an action for it, or to the device if none has. -/
theorem serve_nest (a : Ask) :
    (d.nest layers).serve a = (layers.findSome? fun o => o.serve? a).getD (d.serve a) := by
  induction layers with
  | nil => rfl
  | cons o below ih =>
    show ((d.nest below).override o).serve a = _
    rw [serve_override, List.findSome?_cons, ih]
    cases o.serve? a <;> rfl

/-- Two overrides on top of each other are one with the actions of both. -/
theorem override_override (d : Device σ) (inner outer : Override σ) :
    (d.override inner).override outer = d.override (outer.merge inner) :=
  ext (fun _ => Option.getD_or.symm) (fun _ => Option.getD_or.symm)

end Device

/-! ## Actions on a part of the state -/

section

variable {get : ω → σ}

/-- An action on a part of the state, which is put back with what else is to be noted. -/
def onPart (get : ω → σ) (put : σ → ω → ω) (x : EStateM Fault σ α) : EStateM Fault ω α := fun w =>
  match x (get w) with
  | .ok a s => .ok a (put s w)
  | .error e s => .error e (put s w)

theorem replying_onPart {put : σ → ω → ω} {f : α → Option Int} {x : EStateM Fault σ α} {w : ω} :
    replying f (onPart get put x) w =
      ((replying f x (get w)).1, put (replying f x (get w)).2 w) := by
  unfold replying onPart
  cases x (get w) <;> rfl

variable {put : Ask → σ → ω → ω} {a : Ask}

def Device.onPart (get : ω → σ) (put : Ask → σ → ω → ω) (d : Device σ) : Device ω where
  read channel := Moo.onPart get (put (.read channel)) (d.read channel)
  write channel value := Moo.onPart get (put (.write channel value)) (d.write channel value)

def Override.onPart (get : ω → σ) (put : Ask → σ → ω → ω) (o : Override σ) : Override ω where
  read channel := (o.read channel).map (Moo.onPart get (put (.read channel)))
  write channel := (o.write channel).map fun x value =>
    Moo.onPart get (put (.write channel value)) (x value)

theorem Device.serve_onPart {d : Device σ} {w : ω} :
    (d.onPart get put).serve a w =
      ((d.serve a (get w)).1, put a (d.serve a (get w)).2 w) := by
  cases a <;> exact replying_onPart

theorem Override.serve?_onPart {o : Override σ} :
    (o.onPart get put).serve? a =
      (o.serve? a).map fun f w => ((f (get w)).1, put a (f (get w)).2 w) := by
  cases a with
  | read channel =>
    show ((o.read channel).map _).map _ = ((o.read channel).map _).map _
    rw [Option.map_map, Option.map_map]
    exact Option.map_congr fun x _ => funext fun w => replying_onPart
  | write channel value =>
    show ((o.write channel).map _).map _ = ((o.write channel).map _).map _
    rw [Option.map_map, Option.map_map]
    exact Option.map_congr fun x _ => funext fun w => replying_onPart

end

/-! ## Where a call goes -/

/-- The device, with a note under the number `i` of each call that reaches it. -/
def Device.noted (i : Nat) (d : Device ω) : Device (ω × List (Nat × Ask)) :=
  d.onPart Prod.fst fun a w p => (w, p.2 ++ [(i, a)])

def Override.noted (i : Nat) (o : Override ω) : Override (ω × List (Nat × Ask)) :=
  o.onPart Prod.fst fun a w p => (w, p.2 ++ [(i, a)])

namespace Device

/-- The device under overrides, with a note of each call that reaches one of them. The overrides are
numbered from the outermost on, and the device comes last. -/
def notedNest (d : Device ω) (layers : List (Override ω)) : Device (ω × List (Nat × Ask)) :=
  (d.noted layers.length).nest (layers.zipIdx.map fun p => p.1.noted p.2)

theorem serve_nest_noted (d : Device ω) (layers : List (Override ω)) (k : Nat) (a : Ask)
    (p : ω × List (Nat × Ask)) :
    ((d.noted (k + layers.length)).nest ((layers.zipIdx k).map fun p => p.1.noted p.2)).serve a p =
      (((d.nest layers).serve a p.1).1, ((d.nest layers).serve a p.1).2,
        p.2 ++ [(k + layers.findIdx (·.takes a.operation), a)]) := by
  induction layers generalizing k with
  | nil =>
    show (d.noted k).serve a p = _
    exact serve_onPart
  | cons o below ih =>
    have hlength : k + (below.length + 1) = k + 1 + below.length := by omega
    have htakes := o.isSome_serve? (a := a)
    rw [List.zipIdx_cons, List.map_cons, List.length_cons, hlength, List.findIdx_cons, ← htakes]
    show (override (nest _ _) (o.noted k)).serve a p =
      ((((d.nest below).override o).serve a p.1).1, (((d.nest below).override o).serve a p.1).2, _)
    rw [serve_override, serve_override, Override.noted, Override.serve?_onPart]
    cases o.serve? a with
    | none =>
      have hindex : k + (below.findIdx (·.takes a.operation) + 1) =
          k + 1 + below.findIdx (·.takes a.operation) := by omega
      show (nest _ _).serve a p = (_, _, p.2 ++ [(k + (below.findIdx _ + 1), a)])
      rw [hindex]
      exact ih (k + 1)
    | some f => rfl

theorem serve_notedNest (d : Device ω) (layers : List (Override ω)) (a : Ask)
    (p : ω × List (Nat × Ask)) :
    (d.notedNest layers).serve a p =
      (((d.nest layers).serve a p.1).1, ((d.nest layers).serve a p.1).2,
        p.2 ++ [(layers.findIdx (·.takes a.operation), a)]) := by
  have h := serve_nest_noted d layers 0 a p
  rwa [Nat.zero_add, Nat.zero_add] at h

theorem transcript_notedNest (d : Device ω) (layers : List (Override ω)) (asks : List Ask)
    (p : ω × List (Nat × Ask)) :
    (d.notedNest layers).transcript asks p = (d.nest layers).transcript asks p.1 := by
  have hshows : (d.notedNest layers).Shows (fun _ => true) Prod.fst (d.nest layers) := {
    serve := fun _ p => by rw [serve_notedNest]
    ignore := fun h => nomatch h }
  exact hshows.transcript_eq asks p

/-- Each call reaches the first override that has an action for it, or the device if none has. It
reaches it once, and nothing else. -/
theorem after_notedNest (d : Device ω) (layers : List (Override ω)) (asks : List Ask)
    (p : ω × List (Nat × Ask)) :
    (d.notedNest layers).after asks p =
      ((d.nest layers).after asks p.1,
        p.2 ++ asks.map fun a => (layers.findIdx (·.takes a.operation), a)) := by
  induction asks generalizing p with
  | nil => exact Prod.ext rfl (List.append_nil _).symm
  | cons a rest ih =>
    rw [after, serve_notedNest, ih, after, List.map_cons, List.append_assoc]
    rfl

end Device

/-! ## Overrides with a state of their own -/

namespace Override

variable {layers : List (Override τ)} {a : Ask}

def anyTakes (layers : List (Override τ)) (a : Ask) : Bool := layers.any (·.takes a.operation)

theorem isSome_findSome?_serve? :
    (layers.findSome? fun o => o.serve? a).isSome = anyTakes layers a := by
  unfold anyTakes
  rw [List.isSome_findSome?]
  simp only [isSome_serve?]

theorem anyTakes_iff :
    anyTakes layers a = true ↔ ∃ f, (layers.findSome? fun o => o.serve? a) = some f := by
  rw [← isSome_findSome?_serve?, Option.isSome_iff_exists]

theorem anyTakes_eq_false_iff :
    anyTakes layers a = false ↔ (layers.findSome? fun o => o.serve? a) = none := by
  rw [← isSome_findSome?_serve?, Option.isSome_eq_false_iff, Option.isNone_iff_eq_none]

end Override

namespace Device

/-- The device under overrides that have a state of their own beside it. -/
def beneath (d : Device σ) (layers : List (Override τ)) : Device (τ × σ) :=
  (d.onPart Prod.snd fun _ s p => (p.1, s)).nest
    (layers.map (Override.onPart Prod.fst fun _ t p => (t, p.2)))

theorem serve_beneath (d : Device σ) (layers : List (Override τ)) (a : Ask) (p : τ × σ) :
    (d.beneath layers).serve a p =
      (((layers.findSome? fun o => o.serve? a).map fun f => f p.1).map fun q => (q.1, q.2, p.2)).getD
        ((d.serve a p.2).1, p.1, (d.serve a p.2).2) := by
  unfold beneath
  rw [serve_nest, List.findSome?_map]
  have hparts : (fun o : Override (τ × σ) => o.serve? a) ∘
      Override.onPart Prod.fst (fun _ t p => (t, p.2)) =
      Option.map (fun f p => ((f p.1).1, (f p.1).2, p.2)) ∘ fun o : Override τ => o.serve? a :=
    funext fun o => Override.serve?_onPart
  rw [hparts, ← List.map_findSome?]
  cases layers.findSome? fun o => o.serve? a with
  | none => exact serve_onPart
  | some f => rfl

/-- The calls that some override has an action for are served as above any device. They do nothing
to this one. -/
theorem taken_beneath (d : Device σ) (e : Device τ) (layers : List (Override τ)) :
    (d.beneath layers).Shows (Override.anyTakes layers) Prod.fst (e.nest layers) where
  serve h p := by
    obtain ⟨f, hf⟩ := Override.anyTakes_iff.mp h
    rw [serve_beneath, serve_nest, hf]
    rfl
  ignore h p := by
    rw [serve_beneath, Override.anyTakes_eq_false_iff.mp h]
    rfl

/-- The other calls are served as by the device without overrides, and do nothing to these. -/
theorem left_beneath (d : Device σ) (layers : List (Override τ)) :
    (d.beneath layers).Shows (fun a => !Override.anyTakes layers a) Prod.snd d where
  serve {a} h p := by
    rw [Bool.not_eq_true'] at h
    rw [serve_beneath, Override.anyTakes_eq_false_iff.mp h]
    rfl
  ignore h p := by
    rw [Bool.not_eq_false'] at h
    obtain ⟨f, hf⟩ := Override.anyTakes_iff.mp h
    rw [serve_beneath, hf]
    rfl

/-! ## Mirrored writes -/

/-- Each write is recorded and then asked of the device. -/
def mirror (d : Device σ) : Override (σ × Array Output) where
  read _ := none
  write channel := some fun value p =>
    Moo.onPart Prod.fst (fun s p => (s, p.2)) (d.write channel value)
      (p.1, p.2.push ⟨channel, value⟩)

/-- A record of the writes is kept by overriding them. -/
theorem recording_eq (d : Device σ) :
    d.recording = (d.onPart Prod.fst fun _ s p => (s, p.2)).override d.mirror := by
  refine ext (fun channel => funext fun p => ?_) fun channel => funext fun value => funext fun p => ?_
  · show d.recording.read channel p =
      Moo.onPart Prod.fst (fun s p => (s, p.2)) (d.read channel) p
    unfold recording Moo.onPart
    cases hd : d.read channel p.1 <;> simp only [hd]
  · show d.recording.write channel value p =
      Moo.onPart Prod.fst (fun s p => (s, p.2)) (d.write channel value)
        (p.1, p.2.push ⟨channel, value⟩)
    unfold recording Moo.onPart
    cases hd : d.write channel value p.1 <;> simp only [hd]

end Device

end Moo
