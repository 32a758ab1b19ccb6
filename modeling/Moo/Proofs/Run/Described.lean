import Mathlib.Tactic.MkIffOfInductiveProp
import Moo.Proofs.Json.Loaded
import Moo.Proofs.Schema.Reference
import Moo.Run.ReceiptSchema

/-!
# Receipts described

What a receipt is, said of JSON values without a schema (`Receipt.Described`): which members it must
have, which it may have, and what each of them is. A validator that follows the standard finds
nothing wrong with a value only if it is so, and accepts it only then; and of what is so it finds
nothing wrong, if it can show the refusal in it, which is a choice among three sorts. In a document
that was read the refusals of these sorts can be shown. That two texts match their patterns is said
in the terms of the search that the validator makes.
-/

namespace Moo.Run.Receipt

variable {finds : Pattern → JsonText → Prop} {depth : Nat} {passes : Schema → Json → Prop} {v : Json}

/-! ## Parts -/

def IsCount (v : Json) : Prop := v.IsInteger (0 ≤ ·)

def IsByte (v : Json) : Prop := v.IsInteger fun n => 0 ≤ n ∧ n ≤ 255

def IsDigest (finds : Pattern → JsonText → Prop) (v : Json) : Prop :=
  ∃ t, v = .str t ∧ finds hashPattern t

@[mk_iff]
structure IsSource (finds : Pattern → JsonText → Prop) (v : Json) : Prop where
  object : v.IsObjectOf ["hash", "path"]
  hash : v.Has "hash" (IsDigest finds)
  path : v.May "path" Json.IsString

@[mk_iff]
structure IsStamp (v : Json) : Prop where
  object : v.IsObjectOf ["timestamp", "uuid"]
  timestamp : v.Has "timestamp" Json.IsString
  uuid : v.Has "uuid" Json.IsString

@[mk_iff]
structure IsProgram (v : Json) : Prop where
  object : v.IsObjectOf ["tokens", "commands"]
  tokens : v.Has "tokens" IsCount
  commands : v.Has "commands" IsCount

/-- Cells under their positions, none of them zero. -/
def IsCells (finds : Pattern → JsonText → Prop) (v : Json) : Prop :=
  v.IsObject ∧ ∀ name w, v.part? (.name name) = some w →
    finds positionPattern name ∧ w.IsInteger fun n => 1 ≤ n ∧ n ≤ 255

@[mk_iff]
structure IsMachine (finds : Pattern → JsonText → Prop) (v : Json) : Prop where
  object : v.IsObjectOf ["cursor", "programCounter", "register", "memorySize", "cells"]
  cursor : v.Has "cursor" IsCount
  programCounter : v.Has "programCounter" IsCount
  register : v.Has "register" fun w => w = .null ∨ IsByte w
  memorySize : v.Has "memorySize" (Json.IsInteger (1 ≤ ·))
  cells : v.Has "cells" (IsCells finds)

@[mk_iff]
structure IsWrite (v : Json) : Prop where
  object : v.IsObjectOf ["kind", "value"]
  kind : v.Has "kind" (Json.IsOneOf ["char", "byte"])
  value : v.Has "value" IsByte

@[mk_iff]
structure IsInvalidCommand (v : Json) : Prop where
  object : v.IsObjectOf ["type", "value"]
  type : v.Has "type" (· = .text "invalidCommand")
  value : v.Has "value" (Json.IsInteger fun _ => True)

@[mk_iff]
structure IsEvalLoop (v : Json) : Prop where
  object : v.IsObjectOf ["type"]
  type : v.Has "type" (· = .text "evalLoop")

def IsRefusal (v : Json) : Prop := v = .null ∨ IsInvalidCommand v ∨ IsEvalLoop v

/-- A line of the log, perhaps with further members. -/
@[mk_iff]
structure IsLogEntry (v : Json) : Prop where
  object : v.IsObject
  level : v.Has "level" (Json.IsOneOf ["info", "warning", "error"])
  event : v.Has "event" Json.IsString
  message : v.Has "message" Json.IsString

/-- A step, perhaps with further members. -/
@[mk_iff]
structure IsStepEntry (v : Json) : Prop where
  object : v.IsObject
  step : v.Has "step" (Json.IsInteger (1 ≤ ·))
  counter : v.Has "pc" IsCount
  command : v.Has "command" Json.IsString
  action : v.Has "action" (Json.IsOneOf ["exec", "skip"])
  events : v.May "events" (Json.IsArrayOf fun _ => True)

@[mk_iff]
structure Described (finds : Pattern → JsonText → Prop) (v : Json) : Prop where
  object : v.IsObjectOf ["engine", "module", "run", "status", "reason", "program", "stepsExecuted",
    "machine", "output", "stdout", "badEval", "logs", "steps"]
  engine : v.Has "engine" (· = .text "cow")
  module : v.Has "module" (IsSource finds)
  run : v.Has "run" IsStamp
  status : v.Has "status" (Json.IsOneOf ["ok", "badEval", "error"])
  reason : v.May "reason" Json.IsString
  program : v.May "program" IsProgram
  stepsExecuted : v.May "stepsExecuted" IsCount
  machine : v.May "machine" (IsMachine finds)
  output : v.May "output" (Json.IsArrayOf IsWrite)
  stdout : v.May "stdout" Json.IsString
  badEval : v.May "badEval" IsRefusal
  logs : v.Has "logs" (Json.IsArrayOf IsLogEntry)
  steps : v.May "steps" (Json.IsArrayOf IsStepEntry)

/-! ## The schemas of the parts -/

section

variable (hS : Schema.Standard finds depth passes)

include hS

theorem count_iff : passes count v ↔ IsCount v := hS.atLeast

theorem byte_iff : passes [.kind [.integer], .minimum 0, .maximum 255] v ↔ IsByte v := hS.between

theorem label_iff : passes label v ↔ v.IsString := hS.string

theorem digest_iff : passes [.kind [.string], .pattern hashPattern] v ↔ IsDigest finds v :=
  hS.patterned

theorem cells_iff : passes cells v ↔ IsCells finds v := by
  unfold cells
  rw [hS.uniform]
  simp only [hS.pattern, hS.between]
  rfl

theorem source_iff : passes source v ↔ IsSource finds v := by
  unfold source record
  rw [hS.closedObject (by decide), isSource_iff]
  simp [Json.Has, Json.May, digest_iff hS, label_iff hS]

theorem stamp_iff : passes stamp v ↔ IsStamp v := by
  unfold stamp record
  rw [hS.closedObject (by decide), isStamp_iff]
  simp [Json.Has, label_iff hS]

theorem program_iff : passes program v ↔ IsProgram v := by
  unfold program record
  rw [hS.closedObject (by decide), isProgram_iff]
  simp [Json.Has, count_iff hS]

theorem machine_iff : passes machine v ↔ IsMachine finds v := by
  unfold machine record
  rw [hS.closedObject (by decide), isMachine_iff]
  simp [Json.Has, count_iff hS, hS.betweenOrNull, hS.atLeast, cells_iff hS, IsByte]

theorem write_iff : passes write v ↔ IsWrite v := by
  unfold write record
  rw [hS.closedObject (by decide), isWrite_iff]
  simp [Json.Has, hS.enum, byte_iff hS]

theorem invalidCommand_iff :
    passes (record ["type", "value"]
      [("type", [.const BadEval.invalidKind]), ("value", [.kind [.integer]])]) v ↔
      IsInvalidCommand v := by
  unfold record
  rw [hS.closedObject (by decide), isInvalidCommand_iff]
  simp [Json.Has, hS.const, hS.integer, BadEval.invalidKind]

theorem evalLoop_iff :
    passes (record ["type"] [("type", [.const BadEval.loopKind])]) v ↔ IsEvalLoop v := by
  unfold record
  rw [hS.closedObject (by decide), isEvalLoop_iff]
  simp [Json.Has, hS.const, BadEval.loopKind]

theorem logEntry_iff : passes logEntry v ↔ IsLogEntry v := by
  unfold logEntry
  rw [hS.openObject (by decide), isLogEntry_iff]
  simp [Json.Has, hS.enum, label_iff hS]

theorem stepEntry_iff : passes stepEntry v ↔ IsStepEntry v := by
  unfold stepEntry
  rw [hS.openObject (by decide), isStepEntry_iff]
  simp [Json.Has, Json.May, hS.enum, label_iff hS, count_iff hS, hS.atLeast, hS.array]

theorem isRefusal_of_passes (h : passes refusal v) : IsRefusal v := by
  have hbranch := hS.exists_branch h
  simpa [IsRefusal, hS.null, invalidCommand_iff hS, evalLoop_iff hS] using hbranch

/-- The three alternatives exclude each other: null is no object, and the two kinds of refusal
differ. -/
theorem refusal_iff (hv : v.obstacle? depth = none) : passes refusal v ↔ IsRefusal v := by
  have hobject : ∀ {names}, v.IsObjectOf names → v ≠ .null := by
    rintro names ⟨members, rfl, -⟩
    exact nofun
  have hkinds : IsInvalidCommand v → ¬ IsEvalLoop v := by
    intro h h'
    obtain ⟨w, hw, rfl⟩ := h.type
    obtain ⟨w', hw', rfl⟩ := h'.type
    rw [hw] at hw'
    have htext := JsonText.ofString_inj.mp (Json.str.inj (Option.some.inj hw'))
    exact absurd htext (by decide)
  unfold refusal IsRefusal
  rw [hS.choice hv]
  · simp [hS.null, invalidCommand_iff hS, evalLoop_iff hS]
  · simp only [List.pairwise_cons, List.forall_mem_cons, hS.null, invalidCommand_iff hS,
      evalLoop_iff hS]
    refine ⟨⟨fun hv h => hobject h.object hv, fun hv h => hobject h.object hv, nofun⟩,
      ⟨hkinds, nofun⟩, nofun, .nil⟩

/-- The schema says what receipts are described to be as far as its one choice does. -/
theorem schema_iff_of (h : v.May "badEval" fun w => passes refusal w ↔ IsRefusal w) :
    passes schema v ↔ Described finds v := by
  have hrefusal : v.May "badEval" (passes refusal) ↔ v.May "badEval" IsRefusal := forall₂_congr h
  unfold Json.May at hrefusal
  unfold schema record
  rw [hS.closedObject (by decide), described_iff]
  simp [Json.Has, Json.May, members, hS.const, source_iff hS, stamp_iff hS, hS.enum, label_iff hS,
    program_iff hS, count_iff hS, machine_iff hS, hS.items, Json.IsArrayOf, write_iff hS, hrefusal,
    logEntry_iff hS, stepEntry_iff hS]

theorem described_of_passes (h : passes schema v) : Described finds v := by
  have hproperties := hS.sound h (.properties members) (by simp [schema, record])
  have hrefusal : v.May "badEval" (passes refusal) :=
    hproperties ("badEval", refusal) (by simp [members])
  exact (schema_iff_of hS fun w hw =>
    iff_of_true (hrefusal w hw) (isRefusal_of_passes hS (hrefusal w hw))).mp h

theorem schema_iff (hv : v.May "badEval" fun w => w.obstacle? depth = none) :
    passes schema v ↔ Described finds v :=
  schema_iff_of hS fun w hw => refusal_iff hS (hv w hw)

end

/-! ## Receipts -/

theorem sorted?_eq_nil_iff {found : List Violation} :
    Violation.sorted? found = some [] ↔ found = [] := by
  constructor
  · intro h
    unfold Violation.sorted? at h
    split at h
    · rw [← List.length_eq_zero_iff, ← List.length_mergeSort, Option.some.inj h]
      rfl
    · cases h
  · rintro rfl
    simp [Violation.sorted?]

variable {V : Validator}

theorem problems_of_sorted {found listed : List Violation}
    (hfound : V.violations schema v = .ok found) (hlisted : Violation.sorted? found = some listed) :
    problems V v = .ok (listed.map Violation.shown) := by
  unfold problems
  simp only [hfound, hlisted]

theorem problems_eq_nil_iff_violations :
    problems V v = .ok [] ↔ V.violations schema v = .ok [] := by
  unfold problems
  cases V.violations schema v with
  | error e => exact iff_of_false nofun nofun
  | ok found =>
    rw [Except.ok.injEq, ← sorted?_eq_nil_iff]
    dsimp only
    split
    · next listed h => simp [h]
    · next h => simp [h]

theorem described_of_problems (hV : V.Follows finds depth) (h : problems V v = .ok []) :
    Described finds v :=
  described_of_passes hV.violations (problems_eq_nil_iff_violations.mp h)

theorem problems_eq_nil_iff (hV : V.Follows finds depth)
    (hv : v.May "badEval" fun w => w.obstacle? depth = none) :
    problems V v = .ok [] ↔ Described finds v :=
  problems_eq_nil_iff_violations.trans (schema_iff hV.violations hv)

theorem shown_integer {P : Int → Prop} (h : v.IsInteger P) {d : Nat} (hv : v.obstacle? d = none) :
    v.obstacle? depth = none := by
  obtain ⟨n, hn, -⟩ := h
  cases hn with
  | int =>
    refine Json.obstacle?_of_legible (Classical.byContradiction fun hlong => ?_)
    cases hv.symm.trans (Json.obstacle?_int hlong)
  | float _ => cases depth <;> rfl

/-- A refusal that was read can be shown: it is null, or an object that holds a text and perhaps a
number. -/
theorem IsRefusal.shown (h : IsRefusal v) {d : Nat} (hv : v.Loaded d) (hdepth : 1 ≤ depth) :
    v.obstacle? depth = none := by
  obtain ⟨depth, rfl⟩ := Nat.exists_eq_add_of_le' hdepth
  have hpart : ∀ {members : List (JsonText × Json)} {name : String} {w : Json}, v = .obj members →
      v.field? name = some w → ∀ m ∈ members, m.1 = .ofString name → m.2 = w := by
    rintro members name w rfl hw m hm hname
    rw [Json.field?_eq_part?, ← hname,
      (Json.part?_name_eq_some_iff hv.distinct.names).mpr hm] at hw
    exact Option.some.inj hw
  rcases h with rfl | h | h
  · rfl
  · obtain ⟨members, rfl, hnames⟩ := h.object
    obtain ⟨w, hw, rfl⟩ := h.type
    obtain ⟨u, hu, hinteger⟩ := h.value
    have hshown := Json.obstacle?_part hv.shown ((Json.field?_eq_part? _ _).symm.trans hu)
    refine Json.obstacle?_obj.mpr fun m hm => ?_
    obtain ⟨name, hname, he⟩ := hnames m hm
    rcases List.mem_cons.mp hname with rfl | hname
    · rw [hpart rfl hw m hm he]
      exact Json.obstacle?_text _
    · obtain rfl := List.mem_singleton.mp hname
      rw [hpart rfl hu m hm he]
      exact shown_integer hinteger hshown
  · obtain ⟨members, rfl, hnames⟩ := h.object
    obtain ⟨w, hw, rfl⟩ := h.type
    refine Json.obstacle?_obj.mpr fun m hm => ?_
    obtain ⟨name, hname, he⟩ := hnames m hm
    obtain rfl := List.mem_singleton.mp hname
    rw [hpart rfl hw m hm he]
    exact Json.obstacle?_text _

theorem Described.shown (h : Described finds v) {d : Nat} (hv : v.Loaded d) (hdepth : 1 ≤ depth) :
    v.May "badEval" fun w => w.obstacle? depth = none := by
  intro w hw
  have hpart := (Json.field?_eq_part? _ _).symm.trans hw
  exact (h.badEval w hw).shown ⟨Json.obstacle?_part hv.shown hpart, hv.distinct.part hpart⟩ hdepth

/-- A receipt of a run that was refused a loop. -/
def looped : Json :=
  .record [
    ("engine", .text "cow"),
    ("module", .record [
      ("hash", .text "sha256:0000000000000000000000000000000000000000000000000000000000000000")]),
    ("run", .record [("timestamp", .text ""), ("uuid", .text "")]),
    ("status", .text "badEval"),
    ("badEval", .record [("type", .text "evalLoop")]),
    ("logs", .arr [])]

theorem described_looped : Described Pattern.Found looped := by
  have hdigest : IsDigest Pattern.Found
      (.text "sha256:0000000000000000000000000000000000000000000000000000000000000000") :=
    ⟨_, rfl, Pattern.isFoundIn_iff.mp (by decide +kernel)⟩
  have hstring : (Json.text "").IsString := ⟨_, rfl⟩
  have hstatus : Json.IsOneOf ["ok", "badEval", "error"] (.text "badEval") := ⟨_, by simp, rfl⟩
  have hrefusal : IsRefusal (.record [("type", .text "evalLoop")]) := .inr (.inr
    ⟨Json.isObjectOf_record.mpr (by simp), _, rfl, rfl⟩)
  have hlogs : Json.IsArrayOf IsLogEntry (.arr []) := ⟨[], rfl, List.forall_mem_nil _⟩
  rw [described_iff]
  simp [looped, Json.Has, Json.May, Json.field?_record, List.lookup_cons, isSource_iff, isStamp_iff,
    Json.isObjectOf_record, hdigest, hstring, hstatus, hrefusal, hlogs]

end Moo.Run.Receipt
