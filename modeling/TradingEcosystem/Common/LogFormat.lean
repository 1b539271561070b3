import TradingEcosystem.Common.Types
import TradingEcosystem.Lib.Template

/-!
# Log lines

The formatter of `common/logging.h`.  `log` goes over a format with its arguments: a `%` takes the
next one and `%%` is a percent sign.  What it pushes are single elements, a string being one for
each of its characters; the thread of the logger writes them to the file.

`log_eq` is the formatter in one equation: a template, filled in if there are as many arguments as
holes, and one of the two `FATAL`s if not.  The texts of floating point numbers are a parameter.
-/

set_option autoImplicit false

namespace TradingEcosystem

/-- `LogElement`, the type with its member of the union. -/
inductive LogElement (F : Type) where
  | char (c : UInt8)
  | integer (i : Int32)
  | longInteger (li : Int64)
  | longLongInteger (lli : Int64)
  | unsignedInteger (u : UInt32)
  | unsignedLongInteger (ul : UInt64)
  | unsignedLongLongInteger (ull : UInt64)
  | float (f : F)
  | double (d : F)
  deriving DecidableEq

/-- The types `pushValue` takes.  A `const char*` is the bytes before the end of the string. -/
inductive LogValue (F : Type) where
  | char (value : UInt8)
  | int (value : Int32)
  | long (value : Int64)
  | longLong (value : Int64)
  | unsigned (value : UInt32)
  | unsignedLong (value : UInt64)
  | unsignedLongLong (value : UInt64)
  | float (value : F)
  | double (value : F)
  | cString (value : List UInt8)
  | string (value : List UInt8)

namespace Logger

variable {F : Type}

/-- `pushValue` of a `const char*`. -/
def pushChars (value : List UInt8) : List (LogElement F) := value.map .char

/-- `pushValue`: what is pushed.  Of a `std::string` it is what `c_str()` shows, up to its first
zero. -/
def pushValue : LogValue F → List (LogElement F)
  | .char value => [.char value]
  | .int value => [.integer value]
  | .long value => [.longInteger value]
  | .longLong value => [.longLongInteger value]
  | .unsigned value => [.unsignedInteger value]
  | .unsignedLong value => [.unsignedLongInteger value]
  | .unsignedLongLong value => [.unsignedLongLongInteger value]
  | .float value => [.float value]
  | .double value => [.double value]
  | .cString value => pushChars value
  | .string value => pushChars (value.takeWhile fun c => c ≠ 0)

/-- `'%'`. -/
def percent : UInt8 := 37

/-- `log(s)`. -/
def logRest : List UInt8 → Except Fault (List (LogElement F))
  | [] => .ok []
  | [c] => if c = percent then .error (.fatal "missing arguments to log()") else .ok [.char c]
  | c :: d :: s =>
    if c = percent then
      if d = percent then do
        let rest ← logRest s
        return .char d :: rest
      else .error (.fatal "missing arguments to log()")
    else do
      let rest ← logRest (d :: s)
      return .char c :: rest

/-- `log(s, value, args...)`, and `log(s)` when there are no arguments left.  The format is the
bytes before the end of the C string, so none of them is zero. -/
def log : List UInt8 → List (LogValue F) → Except Fault (List (LogElement F))
  | s, [] => logRest s
  | [], _ :: _ => .error (.fatal "extra arguments provided to log()")
  | [c], value :: args =>
    if c = percent then do
      let rest ← log [] args
      return pushValue value ++ rest
    else do
      let rest ← log [] (value :: args)
      return .char c :: rest
  | c :: d :: s, value :: args =>
    if c = percent then
      if d = percent then do
        let rest ← log s (value :: args)
        return .char d :: rest
      else do
        let rest ← log (d :: s) args
        return pushValue value ++ rest
    else do
      let rest ← log (d :: s) (value :: args)
      return .char c :: rest

open Template

/-- The pieces of a format. -/
abbrev pieces (s : List UInt8) : List (Piece UInt8) := parse percent s

/-- What the elements of a format are when its holes are filled. -/
def filled (s : List UInt8) (args : List (LogValue F)) : List (LogElement F) :=
  render .char pushValue (pieces s) args

/-! ## One step of the formatter -/

theorem log_lit {c : UInt8} (h : c ≠ percent) (s : List UInt8) (args : List (LogValue F)) :
    log (c :: s) args = (log s args).map (.char c :: ·) := by
  cases args with
  | nil =>
    cases s with
    | nil => rw [log, log, logRest, logRest, if_neg h]; rfl
    | cons d s => rw [log, log, logRest, if_neg h]; rfl
  | cons v args =>
    cases s with
    | nil => rw [log, log, if_neg h]; rfl
    | cons d s => rw [log, if_neg h]; rfl

theorem log_escaped (s : List UInt8) (args : List (LogValue F)) :
    log (percent :: percent :: s) args = (log s args).map (.char percent :: ·) := by
  cases args with
  | nil => rw [log, log, logRest, if_pos rfl, if_pos rfl]; rfl
  | cons v args => rw [log, if_pos rfl, if_pos rfl]; rfl

theorem log_hole {s : List UInt8} (h : s.head? ≠ some percent) (v : LogValue F)
    (args : List (LogValue F)) :
    log (percent :: s) (v :: args) = (log s args).map (pushValue v ++ ·) := by
  cases s with
  | nil => rw [log, if_pos rfl]; rfl
  | cons d s =>
    have hd : d ≠ percent := fun heq => h (congrArg some heq)
    rw [log, if_pos rfl, if_neg hd]
    rfl

theorem log_hole_nil {s : List UInt8} (h : s.head? ≠ some percent) :
    log (F := F) (percent :: s) [] = .error (.fatal "missing arguments to log()") := by
  cases s with
  | nil => rw [log, logRest, if_pos rfl]
  | cons d s =>
    have hd : d ≠ percent := fun heq => h (congrArg some heq)
    rw [log, logRest, if_pos rfl, if_neg hd]

/-- What `log` returns. -/
def outcome (s : List UInt8) (args : List (LogValue F)) : Except Fault (List (LogElement F)) :=
  if holes (pieces s) = args.length then .ok (filled s args)
  else if holes (pieces s) < args.length then .error (.fatal "extra arguments provided to log()")
  else .error (.fatal "missing arguments to log()")

/-- A piece that is no hole. -/
theorem outcome_lit {s s' : List UInt8} {c : UInt8} (h : pieces s' = .lit c :: pieces s)
    (args : List (LogValue F)) : outcome s' args = (outcome s args).map (.char c :: ·) := by
  rw [outcome, outcome, filled, filled, h, holes, render]
  split
  · rfl
  · split <;> rfl

/-- A hole with a value for it. -/
theorem outcome_hole {s s' : List UInt8} (h : pieces s' = .hole :: pieces s) (v : LogValue F)
    (args : List (LogValue F)) :
    outcome s' (v :: args) = (outcome s args).map (pushValue v ++ ·) := by
  rw [outcome, outcome, filled, filled, h, holes, render, List.length_cons]
  simp only [Nat.add_right_cancel_iff, Nat.add_lt_add_iff_right]
  split
  · rfl
  · split <;> rfl

/-- A hole without one. -/
theorem outcome_hole_nil {s s' : List UInt8} (h : pieces s' = .hole :: pieces s) :
    outcome (F := F) s' [] = .error (.fatal "missing arguments to log()") := by
  rw [outcome, h, holes, List.length_nil, if_neg (Nat.succ_ne_zero _),
    if_neg (Nat.not_lt_zero _)]

theorem log_nil (args : List (LogValue F)) : log [] args = outcome [] args := by
  cases args <;> rfl

/-- A hole, with the end of the format or another symbol behind it. -/
theorem log_hole_eq_outcome {s : List UInt8} (hs : s.head? ≠ some percent)
    (ih : ∀ args : List (LogValue F), log s args = outcome s args) (args : List (LogValue F)) :
    log (percent :: s) args = outcome (percent :: s) args := by
  cases args with
  | nil => rw [log_hole_nil hs, outcome_hole_nil (parse_hole hs)]
  | cons v args => rw [log_hole hs, outcome_hole (parse_hole hs), ih]

/-- **The formatter is a template.**  `log` returns exactly when it has as many arguments as the
format has holes, and what it has pushed then is the format with the arguments in its holes. -/
theorem log_eq_outcome (s : List UInt8) (args : List (LogValue F)) :
    log s args = outcome s args := by
  induction s using parse.induct percent generalizing args with
  | case1 => exact log_nil args
  | case2 c =>
    by_cases hc : c = percent
    · subst hc
      exact log_hole_eq_outcome (by simp) log_nil args
    · rw [log_lit hc, outcome_lit (parse_lit hc []), log_nil]
  | case3 s ih => rw [log_escaped, outcome_lit (parse_escaped percent s), ih]
  | case4 d s hd ih => exact log_hole_eq_outcome (by simpa using hd) ih args
  | case5 c d s hc ih => rw [log_lit hc, outcome_lit (parse_lit hc (d :: s)), ih]

/-! ## The text -/

/-- `file_ << value` of an integer. -/
def decimal (i : Int) : List UInt8 := (toString i).toList.map fun c => UInt8.ofNat c.toNat

variable (showFloat : F → List UInt8)

/-- What `flushQueue` writes for an element. -/
def text : LogElement F → List UInt8
  | .char c => [c]
  | .integer i => decimal i.toInt
  | .longInteger li => decimal li.toInt
  | .longLongInteger lli => decimal lli.toInt
  | .unsignedInteger u => decimal u.toNat
  | .unsignedLongInteger ul => decimal ul.toNat
  | .unsignedLongLongInteger ull => decimal ull.toNat
  | .float f => showFloat f
  | .double d => showFloat d

/-- The text of an argument. -/
def valueText (v : LogValue F) : List UInt8 := (pushValue v).flatMap (text showFloat)

/-- A string is written as it is, up to its end. -/
theorem valueText_cString (value : List UInt8) : valueText showFloat (.cString value) = value := by
  rw [valueText, pushValue, pushChars, List.flatMap_map]
  exact List.flatMap_singleton' value

theorem valueText_string (value : List UInt8) :
    valueText showFloat (.string value) = value.takeWhile fun c => c ≠ 0 :=
  valueText_cString showFloat _

/-- The line of a format with its arguments. -/
def line (s : List UInt8) (args : List (LogValue F)) : List UInt8 :=
  render id (valueText showFloat) (pieces s) args

/-- **What is written** for a call of `log` is its line. -/
theorem flatMap_text_filled (s : List UInt8) (args : List (LogValue F)) :
    (filled s args).flatMap (text showFloat) = line showFloat s args :=
  flatMap_render LogElement.char pushValue (text showFloat) id (fun _ => rfl) (pieces s) args

/-- A text with its percent signs doubled. -/
def escape (s : List UInt8) : List UInt8 := unparse percent (s.map .lit)

/-- **What can be logged.**  A call of `log` returns with these elements exactly when it has as many
arguments as its format has holes and they are the format with the arguments in the holes; the
formats are all sequences of characters and holes in which no hole stands before another one or
before a percent sign; and any text can be logged as it is.

A list with a zero byte is no C string: what it says is that of formats and texts without one. -/
theorem log_spec : (∀ (s : List UInt8) (args : List (LogValue F)) (elements : List (LogElement F)),
      log s args = .ok elements ↔
        holes (pieces s) = args.length ∧ elements = filled s args) ∧
    (∀ ps, (∃ s, pieces s = ps) ↔ Separated percent ps) ∧
    ∀ s, ∃ elements : List (LogElement F), log (escape s) [] = .ok elements ∧
      elements.flatMap (text showFloat) = s := by
  refine ⟨fun s args elements => ?_, fun ps => ⟨?_, fun h => ?_⟩, fun s => ?_⟩
  · rw [log_eq_outcome, outcome]
    split
    · next h => exact ⟨fun heq => ⟨h, (Except.ok.inj heq).symm⟩, fun heq => heq.2 ▸ rfl⟩
    · next h => split <;> exact iff_of_false (by simp) fun heq => h heq.1
  · rintro ⟨s, rfl⟩
    rw [← parse_unparse_iff, unparse_parse]
  · exact ⟨unparse percent ps, (parse_unparse_iff ps).2 h⟩
  · refine ⟨filled (escape s) [], ?_, ?_⟩
    · rw [log_eq_outcome, outcome, pieces, escape, parse_unparse_map_lit, holes_map_lit]
      exact if_pos rfl
    · rw [flatMap_text_filled, line, pieces, escape, parse_unparse_map_lit, render_map_lit,
        List.map_id]

end Logger
end TradingEcosystem
