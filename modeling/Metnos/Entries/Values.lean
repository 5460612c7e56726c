import Mathlib
import Metnos.Lib.Dynamic
import Metnos.Lib.IsoFormat
import Metnos.Undo.Selection

/-!
# Entries.Values — the values of entries, as the list executors read them

An entry is a dictionary; its values are compared as numbers, as texts and as dates.
-/

namespace Metnos.Entries

open Dynamic
open Undo (Text isSpace strip)

/-- A place among all numbers, the infinities included. -/
abbrev Place := WithBot (WithTop ℚ)

/-- What the executors ask of the interpreter and of the message catalogue. -/
structure Interpreter where
  casefold : Text → Text
  /-- `str` of what is neither a number nor a text. -/
  repr : Json → Text
  /-- The place of a float; a text that is no number has none. -/
  float : String → Option Place
  msg : String → List (String × String) → String

variable (py : Interpreter)

/-- `str` -/
def Interpreter.str : Json → Text
  | .str s => s.toList
  | .int n => Json.renderInt n
  | .bool b => (if b then "True" else "False").toList
  | .float text => text.toList
  | v => py.repr v

/-- The place of a number; truth values are 0 and 1. -/
def Interpreter.number : Json → Option Place
  | .float text => py.float text
  | v => (asInt v).map fun n => ((n : ℚ) : Place)

/-- `isinstance(v, (int, float))` -/
def isNumber : Json → Bool
  | .int _ | .float _ | .bool _ => true
  | _ => false

/-- A failure that the caller is told of. -/
def failure (code error : String) : Dict :=
  [("ok", .bool false), ("error_class", .str "invalid_input"), ("error_code", .str code),
    ("error", .str error)]

/-! ## Dates -/

/-- `ASSUMED_YEAR_MARK` -/
def assumedYearMark : Char := '*'

/-- `date_text`, on a text. -/
def dateText (s : Text) : Text :=
  if (strip s).head? = some assumedYearMark then strip (strip s).tail else s

/-- `s.replace("Z", "+00:00")` -/
def withoutZulu (s : Text) : Text :=
  s.flatMap fun c => if c = 'Z' then ['+', '0', '0', ':', '0', '0'] else [c]

end Metnos.Entries
