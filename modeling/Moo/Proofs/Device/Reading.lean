import Moo.Proofs.Device.Refill
import Moo.Proofs.Text.Line

/-!
# Reading from a console

What a line is worth at a console is told by what is left of it without its line ending
(`Console.Worth`). A read takes the lines up to the first one that is worth anything, or all lines
if none is, with one prompt for each line that it asks for and one complaint for each that is of no
worth (`Console.Reads`). Reads one after another take the lines in order and each line once
(`Console.reads_after`).
-/

namespace Moo.Console

variable {channel : Channel} {line : List Char} {lines : List (List Char)} {n : Int} {c : Console}

/-! ## Lines -/

/-- What a line is worth: the code of the ASCII character that is all of it but for its line ending,
or the number that is left of it without blanks at its ends. -/
inductive Worth : Channel → List Char → Int → Prop where
  | char {line : List Char} {c : Char} :
      Text.TrimsTo Text.isLineEnd line [c] → c.toNat ≤ 127 → Worth .char line c.toNat
  | byte {line answer numeral : List Char} {n : Int} :
      Text.TrimsTo Text.isLineEnd line answer → Text.StripsTo Text.isBlank answer numeral →
      Number.parse (String.ofList numeral) = .ok n → Worth .byte line n

def Useless (channel : Channel) (line : List Char) : Prop := ∀ n, ¬ Worth channel line n

theorem accept_eq_some_iff : accept channel line = some n ↔ Worth channel line n := by
  unfold accept
  constructor
  · intro h
    cases channel with
    | char =>
      dsimp only at h
      split at h
      · next c hc =>
        split at h
        · next hle =>
          cases h
          exact .char (Text.chomp_eq_iff.mp hc) hle
        · cases h
      · cases h
    | byte =>
      dsimp only at h
      split at h
      · next k hk =>
        cases h
        exact .byte (Text.chomp_eq_iff.mp rfl) (Text.stripBy_eq_iff.mp rfl) hk
      · cases h
  · intro h
    cases h with
    | char htrim hle =>
      rw [Text.chomp_eq_iff.mpr htrim]
      exact if_pos hle
    | byte htrim hstrip hn =>
      rw [Text.chomp_eq_iff.mpr htrim]
      dsimp only
      rw [Text.stripBy_eq_iff.mpr hstrip, hn]

theorem accept_eq_none_iff : accept channel line = none ↔ Useless channel line := by
  rw [Option.eq_none_iff_forall_ne_some]
  exact forall_congr' fun n => not_congr accept_eq_some_iff

/-! ## A read -/

/-- What is shown while so many lines are of no worth and one more is asked for. -/
def asking (channel : Channel) : Nat → String
  | 0 => prompt channel
  | refused + 1 => prompt channel ++ complaint ++ asking channel refused

/-- What a read at a console comes to, and the lines that it takes. -/
inductive Reads (channel : Channel) (c : Console) :
    List (List Char) → EStateM.Result Fault Console Int → Prop where
  /-- It is answered by the first line that is worth anything. -/
  | answered {refused rest : List (List Char)} {line : List Char} {n : Int} :
      c.lines = refused ++ line :: rest → (∀ l ∈ refused, Useless channel l) →
      Worth channel line n →
      Reads channel c (refused ++ [line])
        (.ok n ⟨rest, c.outs, c.prompts ++ asking channel refused.length⟩)
  /-- No line is worth anything. -/
  | exhausted : (∀ l ∈ c.lines, Useless channel l) →
      Reads channel c c.lines
        (.error (.exhausted .console) ⟨[], c.outs, c.prompts ++ asking channel c.lines.length⟩)

theorem ask_cases (channel : Channel) (lines : List (List Char)) (prompts : String) :
    (∃ refused line rest n, lines = refused ++ line :: rest ∧
        (∀ l ∈ refused, accept channel l = none) ∧ accept channel line = some n ∧
        ask channel lines prompts = (some n, rest, prompts ++ asking channel refused.length)) ∨
      (∀ l ∈ lines, accept channel l = none) ∧
        ask channel lines prompts = (none, [], prompts ++ asking channel lines.length) := by
  induction lines generalizing prompts with
  | nil => exact .inr ⟨fun _ h => absurd h List.not_mem_nil, rfl⟩
  | cons line rest ih =>
    cases ha : accept channel line with
    | some n =>
      refine .inl ⟨[], line, rest, n, rfl, fun _ h => absurd h List.not_mem_nil, ha, ?_⟩
      rw [ask, ha]
      rfl
    | none =>
      -- the prompt and the complaint come before what is shown for the further lines
      have hask : ask channel (line :: rest) prompts =
          ask channel rest (prompts ++ prompt channel ++ complaint) := by rw [ask, ha]
      have hshown : ∀ k, prompts ++ prompt channel ++ complaint ++ asking channel k =
          prompts ++ asking channel (k + 1) := fun k => by
        rw [asking, String.append_assoc, String.append_assoc, String.append_assoc]
      rw [hask]
      obtain ⟨refused, usable, left, n, rfl, hrefused, husable, h⟩ | ⟨hall, h⟩ :=
        ih (prompts ++ prompt channel ++ complaint)
      · refine .inl ⟨line :: refused, usable, left, n, rfl,
          List.forall_mem_cons.mpr ⟨ha, hrefused⟩, husable, ?_⟩
        rw [h, hshown]
        rfl
      · refine .inr ⟨List.forall_mem_cons.mpr ⟨ha, hall⟩, ?_⟩
        rw [h, hshown]
        rfl

theorem read_reads (channel : Channel) (c : Console) :
    ∃ taken, Reads channel c taken (device.read channel c) := by
  obtain ⟨refused, line, rest, n, hlines, hrefused, hline, hask⟩ | ⟨hall, hask⟩ :=
    ask_cases channel c.lines c.prompts
  · have hread : device.read channel c = _ := read_of_some hask
    rw [hread]
    exact ⟨_, .answered hlines (fun l hl => accept_eq_none_iff.mp (hrefused l hl))
      (accept_eq_some_iff.mp hline)⟩
  · have hread : device.read channel c = _ := read_of_none hask
    rw [hread]
    exact ⟨_, .exhausted fun l hl => accept_eq_none_iff.mp (hall l hl)⟩

theorem Reads.lines_eq {taken : List (List Char)} {x : EStateM.Result Fault Console Int}
    (h : Reads channel c taken x) : c.lines = taken ++ (leftIn x).lines := by
  cases h with
  | answered hlines _ _ =>
    rw [hlines, List.append_assoc]
    rfl
  | exhausted _ => exact (List.append_nil _).symm

/-! ## One read after another -/

/-- The console after reads on these channels, whatever came of each. -/
def after (c : Console) (channels : List Channel) : Console :=
  channels.foldl (fun c channel => leftIn (device.read channel c)) c

/-- Reads one after another take the lines in order, each from where the one before has stopped. -/
theorem reads_after (channels : List Channel) (c : Console) :
    ∃ taken : List (List (List Char)), taken.length = channels.length ∧
      (∀ i, c.lines = (taken.take i).flatten ++ (c.after (channels.take i)).lines) ∧
      ∀ i channel, channels[i]? = some channel → ∃ lines, taken[i]? = some lines ∧
        Reads channel (c.after (channels.take i)) lines
          (device.read channel (c.after (channels.take i))) := by
  induction channels generalizing c with
  | nil =>
    refine ⟨[], rfl, fun i => ?_, fun i channel h => ?_⟩
    · rw [List.take_nil, List.take_nil]
      rfl
    · rw [List.getElem?_nil] at h
      cases h
  | cons channel rest ih =>
    obtain ⟨lines, hreads⟩ := read_reads channel c
    obtain ⟨taken, hlength, hlines, hcalls⟩ := ih (leftIn (device.read channel c))
    refine ⟨lines :: taken, congrArg (· + 1) hlength, fun i => ?_, fun i k hk => ?_⟩
    · cases i with
      | zero => rfl
      | succ i =>
        rw [List.take_succ_cons, List.take_succ_cons, List.flatten_cons, List.append_assoc]
        exact hreads.lines_eq.trans (congrArg (lines ++ ·) (hlines i))
    · cases i with
      | zero =>
        cases hk
        exact ⟨lines, rfl, hreads⟩
      | succ i => exact hcalls i k hk

/-! ## Main statement -/

/-- The lines of any text at a console, and reads one after another on any channels. Each takes,
from where the one before has stopped, the lines up to the first one that is worth anything on its
channel, and gives what that is worth; if there is none it takes all lines and fails, for there is
no more input. It shows one prompt for each line that it asks for and one complaint for each that is
of no worth, in order, and nothing is written. -/
theorem reads_take_first_usable_line (stdin : String) (channels : List Channel) :
    let c := ofText stdin
    Text.Splits stdin.toList c.lines ∧
      ∃ taken : List (List (List Char)), taken.length = channels.length ∧
        (∀ i, c.lines = (taken.take i).flatten ++ (c.after (channels.take i)).lines) ∧
        ∀ i channel, channels[i]? = some channel → ∃ lines, taken[i]? = some lines ∧
          Reads channel (c.after (channels.take i)) lines
            (device.read channel (c.after (channels.take i))) :=
  ⟨Text.splits_lines _, reads_after channels _⟩

/-- An empty line and one of two characters are refused, and the last line is left. -/
example : device.read .char (ofText "\nab\nA\r\n7") =
    .ok 65 ⟨[['7']], "", asking .char 2⟩ := by rfl

end Moo.Console
