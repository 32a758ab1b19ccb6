import Moo.Proofs.Disk.Written
import Moo.Proofs.Run.Unread
import Moo.Run.File

/-!
# Line endings

A text can be kept in a file with its newlines as they are, each behind a carriage return, or each
replaced by one (`LineEnding.write`). As long as the text has no carriage return of its own it is
read back from all three (`Disk.decode?_write`), so a run of the file is the run of the text
(`line_endings_do_not_matter`).
-/

namespace Moo

open Text (unifyNewlines unifyNewlines_other)

inductive LineEnding where
  | newline
  | pair
  | carriageReturn
  deriving DecidableEq, Repr

namespace LineEnding

def chars : LineEnding → List Char
  | .newline => ['\n']
  | .pair => ['\r', '\n']
  | .carriageReturn => ['\r']

def writeChars (e : LineEnding) (cs : List Char) : List Char :=
  cs.flatMap fun c => if c = '\n' then e.chars else [c]

def write (e : LineEnding) (text : String) : String := String.ofList (e.writeChars text.toList)

variable {cs : List Char} {c : Char}

theorem writeChars_newline (e : LineEnding) (cs : List Char) :
    e.writeChars ('\n' :: cs) = e.chars ++ e.writeChars cs := by
  unfold writeChars
  rw [List.flatMap_cons, if_pos rfl]

theorem writeChars_other (e : LineEnding) (h : c ≠ '\n') (cs : List Char) :
    e.writeChars (c :: cs) = c :: e.writeChars cs := by
  unfold writeChars
  rw [List.flatMap_cons, if_neg h]
  rfl

theorem newline_not_mem_writeChars (cs : List Char) : '\n' ∉ carriageReturn.writeChars cs := by
  unfold writeChars
  rw [List.mem_flatMap]
  rintro ⟨c, -, hc⟩
  split at hc
  · exact absurd hc (by decide)
  · next hne => exact hne (List.mem_singleton.mp hc).symm

theorem unifyNewlines_carriageReturn (h : '\n' ∉ cs) :
    unifyNewlines ('\r' :: cs) = '\n' :: unifyNewlines cs := by
  rw [unifyNewlines, if_pos rfl]
  rintro rest - rfl
  exact h List.mem_cons_self

/-- However newlines are written, they are read as newlines, and as many. -/
theorem unifyNewlines_writeChars (e : LineEnding) (h : '\r' ∉ cs) :
    unifyNewlines (e.writeChars cs) = cs := by
  induction cs with
  | nil => rfl
  | cons c cs ih =>
    obtain ⟨hc, hcs⟩ := not_or.mp (mt List.mem_cons.mpr h)
    by_cases hn : c = '\n'
    · subst hn
      rw [writeChars_newline]
      cases e with
      | newline =>
        rw [show newline.chars = ['\n'] from rfl, List.singleton_append,
          unifyNewlines_other (by decide), ih hcs]
      | pair =>
        show '\n' :: unifyNewlines (pair.writeChars cs) = _
        rw [ih hcs]
      | carriageReturn =>
        rw [show carriageReturn.chars = ['\r'] from rfl, List.singleton_append,
          unifyNewlines_carriageReturn (newline_not_mem_writeChars cs), ih hcs]
    · rw [writeChars_other e hn, unifyNewlines_other (Ne.symm hc), ih hcs]

end LineEnding

theorem Disk.decode?_write {text : String} (e : LineEnding) (h : '\r' ∉ text.toList) :
    decode? (e.write text).toUTF8.data = some text := by
  rw [decode?_eq, LineEnding.write, String.toList_ofList, LineEnding.unifyNewlines_writeChars e h,
    String.ofList_toList]

/-! ## Runs -/

namespace Run

variable {σ : Type} {d : Device σ}

/-- The outcome without the stamp of its receipt. -/
def Outcome.unstamped : Outcome σ → Outcome σ
  | .finished r =>
    let heading := { r.receipt.heading with stamp := ⟨"", ""⟩ }
    .finished { r with receipt := { r.receipt with heading } }
  | .failed failure device => .failed failure device
  | .unfinished device => .unfinished device

/-- The stamp aside, runs of one job under different stamps come out alike. -/
theorem Job.runWithin_unstamped (j : Job) (stamp : Stamp) (budget : Nat) (buffered : Bool)
    (device : σ) : (({ j with stamp } : Job).runWithin budget d buffered device).unstamped =
      (j.runWithin budget d buffered device).unstamped := by
  rw [j.runWithin_restamped stamp]
  cases hr : j.runWithin budget d buffered device with
  | finished r =>
    obtain ⟨m, s, shown, -, -, -, rfl⟩ := Job.runWithin_finished hr
    rfl
  | failed failure device => rfl
  | unfinished device => rfl

theorem Job.ofFile_of_holds {disk : Disk} {path text : String} {bytes : Array UInt8}
    (h : disk.Holds (.ofString path) bytes) (hb : Disk.decode? bytes = some text)
    (catalogue : Catalogue) (options : Options) (stamp : Stamp) :
    Job.ofFile disk path catalogue options stamp =
      .ok ⟨text, some path, catalogue, options, stamp⟩ := by
  unfold Job.ofFile
  rw [h.readText hb]
  rfl

/-! ## Main statement -/

/-- A text without carriage returns is stored at a path, with each newline written as a newline, as
a carriage return and a newline, or as a carriage return. Whichever it is, the run of the file is
the run of the text with the path: they fail alike, and if they end they leave the same machine, the
same device and, the stamp aside, the same receipt, with the digest and the number of words of the
text. -/
theorem line_endings_do_not_matter {text : String} (h : '\r' ∉ text.toList) (path : String)
    (catalogue : Catalogue) (options : Options) :
    (∀ (e : LineEnding) (disk : Disk), disk.Writable (.ofString path) →
      ∃ disk', disk.writeText (.ofString path) (e.write text) = .ok disk' ∧
        disk'.Holds (.ofString path) (e.write text).toUTF8.data) ∧
    ∀ {σ : Type} (d : Device σ) (buffered : Bool) (budget : Nat) (device : σ) (e e' : LineEnding)
      (disk disk' : Disk) (stamp stamp' stamp'' : Stamp),
      disk.Holds (.ofString path) (e.write text).toUTF8.data →
      disk'.Holds (.ofString path) (e'.write text).toUTF8.data →
      ∃ j j', Job.ofFile disk path catalogue options stamp = .ok j ∧
        Job.ofFile disk' path catalogue options stamp' = .ok j' ∧
        (j'.runWithin budget d buffered device).unstamped =
          (j.runWithin budget d buffered device).unstamped ∧
        ((⟨text, some path, catalogue, options, stamp''⟩ : Job).runWithin budget d buffered
          device).unstamped = (j.runWithin budget d buffered device).unstamped ∧
        ∀ r, j.runWithin budget d buffered device = .finished r →
          r.receipt.heading = .ofText text (some path) stamp ∧
          r.receipt.heading.hash = sourceHash text ∧
          ∃ summary, r.receipt.verdict = .finished summary ∧
            summary.tokens = (Token.ofText text).length := by
  refine ⟨fun e disk hdisk => hdisk.holds _, ?_⟩
  intro σ d buffered budget device e e' disk disk' stamp stamp' stamp'' hdisk hdisk'
  have hfile := Job.ofFile_of_holds hdisk (Disk.decode?_write e h) catalogue options
  have hfile' := Job.ofFile_of_holds hdisk' (Disk.decode?_write e' h) catalogue options
  refine ⟨_, _, hfile stamp, hfile' stamp', ?_, ?_, fun r hr => ?_⟩
  · exact Job.runWithin_unstamped ⟨text, some path, catalogue, options, stamp⟩ stamp' budget buffered
      device
  · exact Job.runWithin_unstamped ⟨text, some path, catalogue, options, stamp⟩ stamp'' budget
      buffered device
  · obtain ⟨m, s, shown, -, -, -, rfl⟩ := Job.runWithin_finished hr
    exact ⟨rfl, rfl, _, rfl, rfl⟩

/-- A text with an empty line is stored with carriage returns and newlines, and with carriage
returns alone. Both files run as the text does, which has two words. -/
theorem line_endings_do_not_matter_empty_line :
    let text := "oom\n\nOOM"
    let disk := Disk.bare ["home"]
    let path := Path.ofString "p.cow"
    '\r' ∉ text.toList ∧ disk.Writable path ∧
      LineEnding.pair.write text = "oom\r\n\r\nOOM" ∧
      LineEnding.carriageReturn.write text = "oom\r\rOOM" ∧
      ∃ dos mac, disk.writeText path (LineEnding.pair.write text) = .ok dos ∧
        disk.writeText path (LineEnding.carriageReturn.write text) = .ok mac ∧
        ∃ j j', Job.ofFile dos "p.cow" .standard ⟨1, none, true⟩ ⟨"", ""⟩ = .ok j ∧
          Job.ofFile mac "p.cow" .standard ⟨1, none, true⟩ ⟨"now", ""⟩ = .ok j' ∧
          (j'.runWithin 9 Buffer.device true (.ofInput "" [7])).unstamped =
            (j.runWithin 9 Buffer.device true (.ofInput "" [7])).unstamped ∧
          ∃ r summary, j.runWithin 9 Buffer.device true (.ofInput "" [7]) = .finished r ∧
            r.receipt.verdict = .finished summary ∧ summary.tokens = 2 := by
  intro text disk path
  have hr : '\r' ∉ text.toList := by decide
  have hw : disk.Writable path := ⟨["home", "p.cow"], rfl, .inl rfl⟩
  obtain ⟨hstore, hruns⟩ :=
    line_endings_do_not_matter hr "p.cow" .standard ⟨1, none, true⟩
  obtain ⟨dos, hdos, hdosHolds⟩ := hstore .pair disk hw
  obtain ⟨mac, hmac, hmacHolds⟩ := hstore .carriageReturn disk hw
  obtain ⟨j, j', hj, hj', halike, htext, hreceipt⟩ := hruns Buffer.device true 9 (.ofInput "" [7])
    .pair .carriageReturn dos mac ⟨"", ""⟩ ⟨"now", ""⟩ ⟨"", ""⟩ hdosHolds hmacHolds
  have hends : ∃ r, (⟨"oom\n\nOOM", some "p.cow", .standard, ⟨1, none, true⟩, ⟨"", ""⟩⟩ :
      Job).runWithin 9 Buffer.device true (.ofInput "" [7]) = .finished r := ⟨_, rfl⟩
  obtain ⟨r', hr'⟩ := hends
  rw [hr'] at htext
  cases hrun : j.runWithin 9 Buffer.device true (.ofInput "" [7]) with
  | finished r =>
    obtain ⟨-, -, summary, hverdict, htokens⟩ := hreceipt r hrun
    exact ⟨hr, hw, by decide +kernel, by decide +kernel, dos, mac, hdos, hmac, j, j', hj, hj', halike,
      r, summary, hrun, hverdict, htokens.trans (by decide +kernel)⟩
  | failed failure device =>
    rw [hrun] at htext
    cases htext
  | unfinished device =>
    rw [hrun] at htext
    cases htext

end Run

end Moo
