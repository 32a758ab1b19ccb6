import Moo.Proofs.Machine.Keeps

/-!
# Showing output

Output is shown write by write, so that of two sequences is shown one after the other. Machines
write nothing that cannot be shown.
-/

namespace Moo

theorem charOfCode?_of_byte {code : Int} (h0 : 0 ≤ code) (h : code ≤ 255) :
    charOfCode? code = some (Char.ofNat code.toNat) := by
  have hv : code.toNat.isValidChar := .inl (by omega)
  exact if_pos ⟨h0, hv⟩

theorem Channel.Carries.byte {channel : Channel} {value : Int} (h : channel.Carries value) :
    0 ≤ value ∧ value ≤ 255 := by
  cases channel with
  | char => exact ⟨by have := h.1; omega, h.2⟩
  | byte => exact h

theorem Channel.Carries.text {channel : Channel} {value : Int} (h : channel.Carries value) :
    ∃ shown, Output.text ⟨channel, value⟩ = .ok shown := by
  cases channel with
  | char =>
    obtain ⟨hlo, hhi⟩ := h.byte
    unfold Output.text
    simp only [charOfCode?_of_byte hlo hhi]
    exact ⟨_, rfl⟩
  | byte => exact ⟨_, rfl⟩

namespace Output

theorem foldlM_text (shown : String) (outputs : List Output) :
    outputs.foldlM (fun shown output => do return shown ++ (← output.text)) shown =
      (render outputs).map (shown ++ ·) := by
  unfold render
  -- for whatever was shown before, since each write puts its own text behind it
  induction outputs generalizing shown with
  | nil => exact congrArg Except.ok String.append_empty.symm
  | cons o rest ih =>
    rw [List.foldlM_cons, List.foldlM_cons]
    cases ho : o.text with
    | error e => rfl
    | ok text =>
      show List.foldlM _ (shown ++ text) rest = Except.map _ (List.foldlM _ ("" ++ text) rest)
      rw [ih (shown ++ text), ih ("" ++ text)]
      cases List.foldlM (fun shown output => do return shown ++ (← output.text)) "" rest with
      | error e => rfl
      | ok t =>
        show Except.ok (shown ++ text ++ t) = Except.ok (shown ++ ("" ++ text ++ t))
        rw [String.empty_append, String.append_assoc]

theorem render_append {a b : List Output} {s t : String} (ha : render a = .ok s)
    (hb : render b = .ok t) : render (a ++ b) = .ok (s ++ t) := by
  have h := foldlM_text s b
  rw [hb] at h
  unfold render at ha ⊢
  rw [List.foldlM_append, ha]
  exact h

theorem render_singleton {o : Output} {text : String} (h : o.text = .ok text) :
    render [o] = .ok text := by
  unfold render
  rw [List.foldlM_cons, h]
  show Except.ok ("" ++ text) = _
  rw [String.empty_append]

theorem render_of_carries {outputs : List Output} (h : ∀ o ∈ outputs, o.channel.Carries o.value) :
    ∃ shown, render outputs = .ok shown := by
  induction outputs with
  | nil => exact ⟨"", rfl⟩
  | cons o rest ih =>
    obtain ⟨ho, hrest⟩ := List.forall_mem_cons.mp h
    obtain ⟨text, htext⟩ := ho.text
    obtain ⟨shown, hshown⟩ := ih hrest
    exact ⟨text ++ shown, render_append (render_singleton htext) hshown⟩

end Output

end Moo
