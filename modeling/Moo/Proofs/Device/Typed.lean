import Moo.Device.Buffer
import Moo.Device.Console
import Moo.Proofs.Device.Output
import Moo.Proofs.Device.View
import Moo.Proofs.Number.Numeral

/-!
# Typed input

What a buffer serves from its queues can be typed at a console, one line for each read: the
character itself, or the numeral. The console accepts just these lines (`Console.accept_typed`), so
a turn that a buffer serves is served by a console on the line of its read (`Turn.on_console`):
after the same answer the line is gone, one prompt and no complaint was shown, and whatever is
written appears as it is rendered.
-/

namespace Moo

/-! ## Lines -/

/-- The answer can be typed as a line: an ASCII character that ends no line, or an integer whose
numeral is not too long. -/
def Channel.Typeable : Channel → Int → Prop
  | .char, n => 0 ≤ n ∧ n ≤ 127 ∧ n ≠ 10 ∧ n ≠ 13
  | .byte, n => (Nat.toDigits 10 n.natAbs).length ≤ Number.maxDecimalDigits

def Channel.typed : Channel → Int → List Char
  | .char, n => [Char.ofNat n.toNat]
  | .byte, n => Number.numeral n

def Channel.typedLine (channel : Channel) (n : Int) : List Char := channel.typed n ++ ['\n']

theorem toNat_ofNat_ascii {n : Nat} (h : n ≤ 127) : (Char.ofNat n).toNat = n := by
  have hv : n.isValidChar := .inl (by omega)
  unfold Char.ofNat
  rw [dif_pos hv]
  rfl

theorem Number.isBlank_of_isDigit {c : Char} (h : c.isDigit = true) : Text.isBlank c = false := by
  have hc := Number.isDigit_toNat h
  have hle : ¬ c.val ≤ 31 := by
    rw [UInt32.le_iff_toNat_le]
    show ¬ c.toNat ≤ 31
    omega
  unfold Text.isBlank
  rw [Number.isNumberBlank_of_isDigit h]
  simp [hle]

theorem Number.isBlank_numeral {n : Int} {c : Char} (h : c ∈ Number.numeral n) :
    Text.isBlank c = false := by
  rcases Number.mem_numeral h with hd | rfl
  · exact Number.isBlank_of_isDigit hd
  · decide

theorem Channel.Typeable.mem_typed {channel : Channel} {n : Int} (h : channel.Typeable n) {c : Char}
    (hc : c ∈ channel.typed n) : c ≠ '\n' ∧ c ≠ '\r' := by
  cases channel with
  | char =>
    obtain ⟨h0, hle, hn, hr⟩ := h
    obtain rfl := List.mem_singleton.mp hc
    have hnat := toNat_ofNat_ascii (n := n.toNat) (by omega)
    constructor
    · intro e
      rw [e] at hnat
      have : (10 : Nat) = n.toNat := hnat
      omega
    · intro e
      rw [e] at hnat
      have : (13 : Nat) = n.toNat := hnat
      omega
  | byte =>
    rcases Number.mem_numeral hc with hd | rfl
    · exact ⟨Number.ne_of_isDigit hd (by decide), Number.ne_of_isDigit hd (by decide)⟩
    · exact ⟨by decide, by decide⟩

theorem Console.accept_typed {channel : Channel} {n : Int} (h : channel.Typeable n) :
    accept channel (channel.typedLine n) = some n := by
  have hchomp : Text.chomp (channel.typedLine n) = channel.typed n :=
    Text.chomp_newline fun c hc => h.mem_typed hc
  unfold accept
  rw [hchomp]
  cases channel with
  | char =>
    obtain ⟨h0, hle, -, -⟩ := h
    have hnat := toNat_ofNat_ascii (n := n.toNat) (by omega)
    show (if (Char.ofNat n.toNat).toNat ≤ 127 then some ((Char.ofNat n.toNat).toNat : Int) else none)
      = some n
    rw [hnat, if_pos (by omega), Int.toNat_of_nonneg h0]
  | byte =>
    have hstrip : Text.stripBy Text.isBlank (Number.numeral n) = Number.numeral n :=
      Text.stripBy_of_none fun c hc => Number.isBlank_numeral hc
    dsimp only [Channel.typed]
    rw [hstrip, Number.parse_numeral h]

theorem Console.device_read : device.read = read := rfl

theorem Console.device_write : device.write = write := rfl

theorem Console.read_typed {channel : Channel} {n : Int} (h : channel.Typeable n)
    (lines : List (List Char)) (outs prompts : String) :
    device.read channel ⟨channel.typedLine n :: lines, outs, prompts⟩ =
      .ok n ⟨lines, outs, prompts ++ prompt channel⟩ := by
  rw [device_read]
  unfold read ask
  simp only [accept_typed h]

theorem Console.write_shown {channel : Channel} {value : Int} {shown : String}
    (h : Output.text ⟨channel, value⟩ = .ok shown) (lines : List (List Char))
    (outs prompts : String) :
    device.write channel value ⟨lines, outs, prompts⟩ =
      .ok () ⟨lines, outs ++ shown, prompts⟩ := by
  rw [device_write]
  unfold write
  simp only [h]

/-! ## Journals of what is typed -/

namespace Transfer

def answers (journal : List Transfer) : List (Channel × Int) :=
  journal.filterMap fun
    | .read channel n => some (channel, n)
    | .write _ _ => none

theorem answers_append (j k : List Transfer) : answers (j ++ k) = answers j ++ answers k :=
  List.filterMap_append

def typedLines (journal : List Transfer) : List (List Char) :=
  (answers journal).map fun p => p.1.typedLine p.2

theorem typedLines_append (j k : List Transfer) :
    typedLines (j ++ k) = typedLines j ++ typedLines k := by
  unfold typedLines
  rw [answers_append, List.map_append]

def prompts (journal : List Transfer) : String :=
  String.join ((answers journal).map fun p => Console.prompt p.1)

def stdin (journal : List Transfer) : String := String.ofList (typedLines journal).flatten

theorem lines_stdin {journal : List Transfer}
    (h : ∀ p ∈ answers journal, p.1.Typeable p.2) :
    Text.lines (stdin journal).toList = typedLines journal := by
  have hmap : typedLines journal =
      ((answers journal).map fun p => p.1.typed p.2).map (· ++ ['\n']) := by
    rw [List.map_map]
    rfl
  unfold stdin
  rw [String.toList_ofList, hmap]
  refine Text.lines_flatten (List.forall_mem_map.mpr fun p hp hn => ?_)
  exact ((h p hp).mem_typed hn).1 rfl

end Transfer

/-! ## Serving a journal -/

/-- From `c` to `c'` the console has served the transfers: the lines of the reads are gone, each
with one prompt, and the writes are shown as they are rendered. -/
structure Console.Serves (journal : List Transfer) (c c' : Console) : Prop where
  lines : c.lines = Transfer.typedLines journal ++ c'.lines
  prompts : c'.prompts = c.prompts ++ Transfer.prompts journal
  outs : ∃ shown, Output.render (Transfer.outputs journal) = .ok shown ∧ c'.outs = c.outs ++ shown

theorem Console.Serves.nil (c : Console) : Serves [] c c where
  lines := rfl
  prompts := String.append_empty.symm
  outs := ⟨"", rfl, String.append_empty.symm⟩

theorem Console.Serves.append {j k : List Transfer} {a b c : Console} (h : Serves j a b)
    (h' : Serves k b c) : Serves (j ++ k) a c where
  lines := by
    rw [h.lines, h'.lines, Transfer.typedLines_append, List.append_assoc]
  prompts := by
    rw [h'.prompts, h.prompts]
    unfold Transfer.prompts
    rw [Transfer.answers_append, List.map_append, String.join_append, String.append_assoc]
  outs := by
    obtain ⟨s, hs, e⟩ := h.outs
    obtain ⟨s', hs', e'⟩ := h'.outs
    refine ⟨s ++ s', ?_, ?_⟩
    · rw [Transfer.outputs_append]
      exact Output.render_append hs hs'
    · rw [e', e, String.append_assoc]

/-- A fresh console that has served a journal has shown just its output and its prompts. -/
theorem Console.Serves.ofText {journal : List Transfer} {stdin shown : String} {c : Console}
    (h : Serves journal (.ofText stdin) c)
    (hs : Output.render (Transfer.outputs journal) = .ok shown) :
    c = ⟨c.lines, shown, Transfer.prompts journal⟩ := by
  obtain ⟨lines, outs, prompts⟩ := c
  obtain ⟨shown', hs', houts⟩ := h.outs
  rw [hs] at hs'
  injection hs' with e
  have houts : outs = "" ++ shown' := houts
  have hprompts : prompts = "" ++ Transfer.prompts journal := h.prompts
  rw [houts, hprompts, String.empty_append, String.empty_append, e]

theorem Console.serves_read (channel : Channel) (n : Int) (lines : List (List Char))
    (outs prompts : String) :
    Serves [.read channel n] ⟨channel.typedLine n :: lines, outs, prompts⟩
      ⟨lines, outs, prompts ++ prompt channel⟩ where
  lines := rfl
  prompts := by
    show prompts ++ prompt channel = prompts ++ String.join [prompt channel]
    rw [String.join_cons, String.join_nil, String.append_empty]
  outs := ⟨"", rfl, String.append_empty.symm⟩

theorem Console.serves_write {channel : Channel} {value : Int} {shown : String}
    (h : Output.text ⟨channel, value⟩ = .ok shown) (lines : List (List Char))
    (outs prompts : String) :
    Serves [.write channel value] ⟨lines, outs, prompts⟩ ⟨lines, outs ++ shown, prompts⟩ where
  lines := rfl
  prompts := String.append_empty.symm
  outs := ⟨shown, Output.render_singleton h, rfl⟩

/-! ## Turns that a buffer serves -/

structure Buffer.Typeable (b : Buffer) : Prop where
  chars : ∀ c ∈ b.chars, Channel.char.Typeable c
  numbers : ∀ n ∈ b.numbers, Channel.byte.Typeable n

theorem Buffer.Typeable.read {b b' : Buffer} (h : b.Typeable) {channel : Channel} {n : Int}
    (hr : Buffer.device.read channel b = .ok n b') : channel.Typeable n ∧ b'.Typeable := by
  obtain ⟨chars, numbers, output⟩ := b
  cases channel with
  | char =>
    cases chars with
    | nil => cases hr
    | cons c rest =>
      cases hr
      obtain ⟨hc, hrest⟩ := List.forall_mem_cons.mp h.chars
      exact ⟨hc, hrest, h.numbers⟩
  | byte =>
    cases numbers with
    | nil => cases hr
    | cons n rest =>
      cases hr
      obtain ⟨hn, hrest⟩ := List.forall_mem_cons.mp h.numbers
      exact ⟨hn, h.chars, hrest⟩

/-- All that was read can be typed, and all that is left to read. -/
structure Buffer.Typed (s : Buffer × Array Transfer) : Prop where
  buffer : s.1.Typeable
  journal : ∀ p ∈ Transfer.answers s.2.toList, p.1.Typeable p.2

theorem Buffer.Typed.push {b b' : Buffer} {journal : Array Transfer} {x : Transfer}
    (h : Typed (b, journal)) (hb : b'.Typeable)
    (hx : ∀ p ∈ Transfer.answers [x], p.1.Typeable p.2) : Typed (b', journal.push x) where
  buffer := hb
  journal := by
    rw [Array.toList_push, Transfer.answers_append, List.forall_mem_append]
    exact ⟨h.journal, hx⟩

/-- A turn that a buffer serves, with these transfers, is served by a console that finds the lines
of its reads first. -/
theorem Turn.on_console {α : Type} {x : Turn α} {a : α} {b b' : Buffer}
    {journal journal' : Array Transfer} {record record' : Array Output}
    (hb : Buffer.Typed (b, journal)) (hout : ∀ o ∈ record', o.channel.Carries o.value)
    (h : x.on Buffer.device.journaled.recording ((b, journal), record) =
      .ok a ((b', journal'), record')) :
    Buffer.Typed (b', journal') ∧ ∃ more, journal'.toList = journal.toList ++ more ∧
      ∀ (c : Console) (rest : List (List Char)), c.lines = Transfer.typedLines more ++ rest →
        ∃ c', x.on Console.device.recording (c, record) = .ok a (c', record') ∧
          Console.Serves more c c' ∧ c'.lines = rest := by
  cases x with
  | quiet a' =>
    cases h
    refine ⟨hb, [], (List.append_nil _).symm, ?_⟩
    intro c rest hc
    exact ⟨c, rfl, .nil c, hc⟩
  | reads channel next =>
    unfold Turn.on Device.recording Device.journaled at h
    cases hr : Buffer.device.read channel b with
    | ok n b₁ =>
      simp only [hr] at h
      cases h
      obtain ⟨hn, hb'⟩ := hb.buffer.read hr
      refine ⟨hb.push hb' (List.forall_mem_singleton.mpr hn), [.read channel n],
        Array.toList_push, ?_⟩
      rintro ⟨lines, outs, prompts⟩ rest hc
      obtain rfl : lines = channel.typedLine n :: rest := hc
      refine ⟨_, ?_, Console.serves_read channel n rest outs prompts, rfl⟩
      unfold Turn.on Device.recording
      simp only [Console.read_typed hn rest outs prompts]
    | error e b₁ =>
      simp only [hr] at h
      cases h
  | writes channel value a' =>
    -- a buffer takes any write, but a console has to show it
    cases h
    obtain ⟨shown, hshown⟩ := (hout ⟨channel, value⟩ (Array.mem_push_self)).text
    refine ⟨hb.push ⟨hb.buffer.chars, hb.buffer.numbers⟩ fun p hp => absurd hp List.not_mem_nil,
      [.write channel value], Array.toList_push, ?_⟩
    rintro ⟨lines, outs, prompts⟩ rest hc
    obtain rfl : lines = rest := hc
    refine ⟨_, ?_, Console.serves_write hshown lines outs prompts, rfl⟩
    unfold Turn.on Device.recording
    simp only [Console.write_shown hshown lines outs prompts]
  | fails e => cases h

end Moo
