import Moo.Proofs.Device.Typed
import Moo.Proofs.Run.Direct

/-!
# Scripted and interactive runs

A run on a buffer that ends is repeated at a console by typing, read by read, what the buffer served
(`console_runs_like_buffer`): same machine, same receipt but for the stamp and the text of the
output, which the console has shown meanwhile. All that was typed is used up, one prompt for a line.
The two runs go in step: after each tick, the console is where the journal of the buffer says
(`Session.Ticks.atConsole`).
-/

namespace Moo.Run

namespace Session

variable {o : Options}

/-- The session, gone on with at a console. -/
def atConsole {σ : Type} (z : Session σ) (c : Console) : Session Console :=
  ⟨z.machine, (c, z.device.2), z.steps, z.entries, z.refusals⟩

theorem after_atConsole {σ : Type} (z : Session σ) (c c' : Console)
    (w : World (σ × Array Output) (Array Event)) :
    (z.atConsole c).after o ⟨w.machine, (c', w.device.2), w.audience⟩ =
      (z.after o w).atConsole c' := by
  unfold after atConsole
  cases z.machine.command? <;> rfl

/-- A tick that a buffer serves is made at a console that finds the lines of its reads first. -/
theorem tick_atConsole {z z' : Session (Buffer × Array Transfer)} (hb : Buffer.Typed z.device.1)
    (hout : ∀ o ∈ z'.device.2, o.channel.Carries o.value)
    (ht : tick Buffer.device.journaled o z = .ok () z') :
    Buffer.Typed z'.device.1 ∧ ∃ more, z'.device.1.2.toList = z.device.1.2.toList ++ more ∧
      ∀ (c : Console) (rest : List (List Char)), c.lines = Transfer.typedLines more ++ rest →
        ∃ c', tick Console.device o (z.atConsole c) = .ok () (z'.atConsole c') ∧
          Console.Serves more c c' ∧ c'.lines = rest := by
  obtain ⟨hx, shift, device, hon, rfl⟩ := tick_turn ht
  rw [after_device] at hout ⊢
  obtain ⟨hb', more, hmore, hconsole⟩ := Turn.on_console hb hout hon
  refine ⟨hb', more, hmore, fun c rest hc => ?_⟩
  obtain ⟨c', hon', hserves, hrest⟩ := hconsole c rest hc
  have hstep : stepOnce Console.device z.machine (c, z.device.2) =
      .ok () ⟨shift.1, (c', device.2), shift.2.toArray⟩ := by
    rw [stepOnce_eq, hon']
  refine ⟨c', ?_, hserves, hrest⟩
  have hafter := after_atConsole (o := o) z c c' ⟨shift.1, device, shift.2.toArray⟩
  rw [← hafter]
  exact tick_of_ok (s := z.atConsole c) hx hstep

variable {t : Catalogue} {program : List Command} {memorySize : Int}

/-- As long as a buffer serves a session, a console that is given the lines of its reads, and
perhaps more, serves it too. -/
theorem Ticks.atConsole {z₀ z : Session (Buffer × Array Transfer)} {n : Nat}
    (h : Ticks Buffer.device.journaled o z₀ n z) (hfit : z₀.Fit t program memorySize)
    (hb : Buffer.Typed z₀.device.1) (hjournal : z₀.device.1.2 = #[]) :
    Buffer.Typed z.device.1 ∧
      ∀ (c : Console) (rest : List (List Char)),
        c.lines = Transfer.typedLines z.device.1.2.toList ++ rest →
          ∃ c', Ticks Console.device o (z₀.atConsole c) n (z.atConsole c') ∧
            Console.Serves z.device.1.2.toList c c' ∧ c'.lines = rest := by
  induction h with
  | none =>
    refine ⟨hb, fun c rest hc => ?_⟩
    rw [hjournal] at hc ⊢
    exact ⟨c, .none, .nil c, hc⟩
  | @snoc n z z' hticks hf ht ih =>
    have hfit' := (hticks.fit hfit).tick ht
    obtain ⟨hz, hbefore⟩ := ih
    obtain ⟨hz', more, hmore, hstep⟩ := tick_atConsole hz hfit'.output ht
    refine ⟨hz', fun c rest hc => ?_⟩
    -- the lines of this tick come after those of the ticks before, and before the rest
    rw [hmore, Transfer.typedLines_append, List.append_assoc] at hc
    obtain ⟨c₁, hticks₁, hserves₁, hlines₁⟩ := hbefore c _ hc
    obtain ⟨c', ht', hserves', hrest⟩ := hstep c₁ rest hlines₁
    rw [hmore]
    exact ⟨c', hticks₁.snoc hf ht', hserves₁.append hserves', hrest⟩

end Session

theorem typed_ofInput {chars : String} {numbers : List Int}
    (hchars : ∀ c ∈ chars.toList, c.toNat ≤ 127 ∧ c ≠ '\n' ∧ c ≠ '\r')
    (hnumbers : ∀ n ∈ numbers, (Nat.toDigits 10 n.natAbs).length ≤ Number.maxDecimalDigits) :
    Buffer.Typed (Buffer.ofInput chars numbers, #[]) where
  buffer := by
    refine ⟨List.forall_mem_map.mpr fun c hc => ?_, hnumbers⟩
    obtain ⟨hle, hn, hr⟩ := hchars c hc
    have hn' : c.toNat ≠ 10 := fun e => hn (Char.toNat_inj.mp e)
    have hr' : c.toNat ≠ 13 := fun e => hr (Char.toNat_inj.mp e)
    exact ⟨by omega, by omega, by omega, by omega⟩
  journal p hp := absurd hp List.not_mem_nil

/-- If a run on a buffer ends, the same run at a console, on the lines of the reads that it made,
ends in the same machine, with the same receipt but for the stamp and the text of the output. The
console has shown that text, and one prompt for each read, and no line is left. -/
theorem console_runs_like_buffer {j : Job} {budget : Nat} {chars : String} {numbers : List Int}
    {r : Result Buffer} (hchars : ∀ c ∈ chars.toList, c.toNat ≤ 127 ∧ c ≠ '\n' ∧ c ≠ '\r')
    (hnumbers : ∀ n ∈ numbers, (Nat.toDigits 10 n.natAbs).length ≤ Number.maxDecimalDigits)
    (h : j.runWithin budget Buffer.device true (.ofInput chars numbers) = .finished r)
    (stamp : Stamp) :
    ∃ journal summary entries shown,
      j.runWithin budget Buffer.device.journaled true (.ofInput chars numbers, #[]) =
        .finished ⟨r.machine, (r.device, journal), r.receipt⟩ ∧
      r.receipt = .ofSummary (.ofText j.text j.path j.stamp) summary entries ∧
      summary.stdout = some shown ∧ Output.render summary.output = .ok shown ∧
      ({ j with stamp } : Job).runWithin budget Console.device false
          (.ofText (Transfer.stdin journal.toList)) =
        .finished ⟨r.machine, ⟨[], shown, Transfer.prompts journal.toList⟩,
          .ofSummary (.ofText j.text j.path stamp) { summary with stdout := none } entries⟩ := by
  obtain ⟨journal, hj, -⟩ := Job.runWithin_journaled h
  obtain ⟨m, z, shown, hm, hz, hshown, hr⟩ := Job.runWithin_finished hj
  obtain ⟨machine, device, receipt⟩ := r
  injection hr with hmachine hdevice hreceipt
  obtain rfl : journal = z.device.1.2 := (Prod.mk.inj hdevice).2
  obtain rfl := hmachine
  obtain rfl := hreceipt
  have hstart := typed_ofInput hchars hnumbers
  have hfit : (Session.start m ((Buffer.ofInput chars numbers, #[]) : Buffer × Array Transfer)).Fit
      j.catalogue (j.catalogue.program j.text) j.options.memorySize :=
    .of_start (Machine.Intact.of_load hm) _
  have htallied : z.device.2.toList = Transfer.outputs z.device.1.2.toList :=
    Session.run_tallied (s := .start m (Buffer.ofInput chars numbers, #[])) rfl hz
  obtain ⟨n, hn, hticks, hend⟩ := Session.ticks_of_run hz
  obtain ⟨htyped, hconsole⟩ := hticks.atConsole hfit hstart rfl
  obtain ⟨c, hticks', hserves, hlines⟩ :=
    hconsole (.ofText (Transfer.stdin z.device.1.2.toList)) []
      ((Transfer.lines_stdin htyped.journal).trans (List.append_nil _).symm)
  have hc : c = ⟨[], shown, Transfer.prompts z.device.1.2.toList⟩ := by
    rw [hserves.ofText (htallied ▸ hshown), hlines]
  refine ⟨z.device.1.2, j.summaryWith (some shown) z, z.entries.toList, shown, hj, rfl, rfl, hshown,
    ?_⟩
  obtain ⟨k, rfl⟩ := Nat.exists_eq_add_of_le hn
  have hrun : Session.run Console.device j.options (n + k)
      (.start m (.ofText (Transfer.stdin z.device.1.2.toList))) = .finished (z.atConsole c) :=
    (hticks'.run k).trans (Session.run_of_finished (s := z.atConsole c) hend k)
  have hconclude : Job.conclude { j with stamp } false (.finished (z.atConsole c)) =
      .finished (Job.result { j with stamp } none (z.atConsole c)) :=
    Job.conclude_finished (s := z.atConsole c) hshown
  rw [Job.runWithin_of_load (j := { j with stamp }) hm]
  show Job.conclude { j with stamp } false (Session.run Console.device j.options (n + k) _) = _
  rw [hrun, hconclude, hc]
  rfl

/-- A run that reads a number and a character and shows both. -/
theorem console_runs_like_buffer_echo :
    ∃ r receipt,
      (⟨"oom OOM OOO Moo Moo", none, .standard, ⟨3, some 9, true⟩, ⟨"", ""⟩⟩ : Job).runWithin 9
        Buffer.device true (.ofInput "a" [7]) = .finished r ∧
      (⟨"oom OOM OOO Moo Moo", none, .standard, ⟨3, some 9, true⟩, ⟨"", ""⟩⟩ : Job).runWithin 9
          Console.device false (.ofText "7\na\n") =
        .finished ⟨r.machine,
          ⟨[], "7\na", "Enter a number: Enter a single ASCII character: "⟩, receipt⟩ := by
  have hends : ∃ r, (⟨"oom OOM OOO Moo Moo", none, .standard, ⟨3, some 9, true⟩, ⟨"", ""⟩⟩ :
      Job).runWithin 9 Buffer.device true (.ofInput "a" [7]) = .finished r ∧
      ∀ v, r.receipt.verdict = .finished v → v.output = [⟨.byte, 7⟩, ⟨.char, 97⟩] :=
    ⟨_, rfl, fun _ hv => by cases hv; rfl⟩
  obtain ⟨r, hr, hout⟩ := hends
  obtain ⟨journal, summary, entries, shown, hj, hreceipt, -, hshown, hrun⟩ :=
    console_runs_like_buffer (by simp) (by decide) hr ⟨"", ""⟩
  have hjournal : ∃ m b receipt,
      (⟨"oom OOM OOO Moo Moo", none, .standard, ⟨3, some 9, true⟩, ⟨"", ""⟩⟩ : Job).runWithin 9
          Buffer.device.journaled true (.ofInput "a" [7], #[]) =
        .finished ⟨m, (b, #[.read .byte 7, .write .byte 7, .read .char 97, .write .char 97]),
          receipt⟩ := ⟨_, _, _, rfl⟩
  obtain ⟨m, b, receipt, hjournal⟩ := hjournal
  rw [hj] at hjournal
  injection hjournal with hjournal
  injection hjournal with _ hjournal
  obtain rfl := (Prod.mk.inj hjournal).2
  rw [hout summary (by rw [hreceipt]; rfl)] at hshown
  cases hshown
  exact ⟨r, _, hr, hrun⟩

end Moo.Run
