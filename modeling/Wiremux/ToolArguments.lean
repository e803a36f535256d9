import Wiremux.JsonValue
import Wiremux.StreamEvents

set_option autoImplicit false

/-!
# The arguments of a call in a request

Messages and Gemini take an object; any other text is wrapped. Converse takes
every JSON value and wraps only text that is not JSON.
-/
namespace Wiremux.ToolArguments
open JsonValue Losses

/-- The wires whose requests carry arguments as a value. -/
inductive ArgumentWire where
  | messages
  | gemini
  | converse
deriving DecidableEq

variable (sj : SerdeJson)

def wrappedJson (wrapKey : String) (value : Value) : Value := .object [(wrapKey, value)]

def jsonObjectOrWrapped (rawText wrapKey : String) : Value × Bool :=
  match sj.fromStr rawText with
  | some value => if value.isObject then (value, false) else (wrappedJson wrapKey value, true)
  | none => (wrappedJson wrapKey (.string rawText), true)

def jsonObjectOrRaw (rawText path : String) (report : LossReport) (detail wrapKey : String) :
    Value × LossReport :=
  let (value, degraded) := jsonObjectOrWrapped sj rawText wrapKey
  (value, if degraded then record report path .degrade detail else report)

def converseToolInput (arguments : String) (report : LossReport) : Value × LossReport :=
  match sj.fromStr arguments with
  | some value => (value, report)
  | none =>
    (.object [("raw", arguments)],
      record report "toolUse.input" .degrade "tool arguments are not JSON")

/-- The input of a call, function or custom; `path` is the item on Messages. -/
def callInput (wire : ArgumentWire) (path arguments : String) (report : LossReport) :
    Value × LossReport :=
  match wire with
  | .messages =>
    jsonObjectOrRaw sj arguments path report "tool arguments are not a JSON object" "raw"
  | .gemini =>
    jsonObjectOrRaw sj arguments "functionCall.args" report "tool arguments are not a JSON object"
      "raw"
  | .converse => converseToolInput sj arguments report

/-- Text that is not JSON stands for itself. -/
def denoted (arguments : String) : Value := (sj.fromStr arguments).getD (.string arguments)

def isObjectText (arguments : String) : Bool := (sj.fromStr arguments).any Value.isObject

/-- Converse sends a JSON value that is no object as it is. -/
def SentBare (wire : ArgumentWire) (arguments : String) : Prop :=
  wire = .converse ∧ ∃ value, sj.fromStr arguments = some value ∧ value.isObject = false

/-- The input of a call is an object from which the arguments can be read. -/
structure Recoverable (wire : ArgumentWire) (path arguments : String) (report : LossReport) :
    Prop where
  object : (callInput sj wire path arguments report).1.isObject = true
  same : ∀ value, sj.fromStr arguments = some value → value.isObject = true →
    (callInput sj wire path arguments report).1 = value
  wrapped : isObjectText sj arguments = false →
    (callInput sj wire path arguments report).1.get? "raw" = some (denoted sj arguments)
  recorded : isObjectText sj arguments = false → ∃ event : LossEvent, event.action = .degrade ∧
    (callInput sj wire path arguments report).2 = report ++ [event]

variable {sj} {wire : ArgumentWire} {path arguments : String} {report : LossReport}

theorem callInput_object {value : Value} (h : sj.fromStr arguments = some value)
    (hobj : value.isObject = true) : callInput sj wire path arguments report = (value, report) := by
  cases wire <;>
    simp [callInput, jsonObjectOrRaw, jsonObjectOrWrapped, converseToolInput, h, hobj]

/-- A text that is no object and is not sent bare is wrapped, and the loss recorded. -/
theorem callInput_wrapped (hobj : isObjectText sj arguments = false)
    (hbare : ¬ SentBare sj wire arguments) : ∃ event : LossEvent, event.action = .degrade ∧
      callInput sj wire path arguments report =
        (wrappedJson "raw" (denoted sj arguments), report ++ [event]) := by
  cases hparse : sj.fromStr arguments with
  | none =>
    cases wire <;>
      simp [callInput, jsonObjectOrRaw, jsonObjectOrWrapped, converseToolInput, hparse, denoted,
        wrappedJson, record]
  | some value =>
    have hno : value.isObject = false := by simpa [isObjectText, hparse] using hobj
    cases wire with
    | converse => exact absurd ⟨rfl, value, hparse, hno⟩ hbare
    | _ => simp [callInput, jsonObjectOrRaw, jsonObjectOrWrapped, hparse, hno, denoted, record]

theorem callInput_bare {value : Value} (h : sj.fromStr arguments = some value) :
    callInput sj .converse path arguments report = (value, report) := by
  simp [callInput, converseToolInput, h]

theorem recoverable_iff :
    Recoverable sj wire path arguments report ↔ ¬ SentBare sj wire arguments := by
  constructor
  · rintro hr ⟨rfl, value, hparse, hno⟩
    have hobj := hr.object
    rw [callInput_bare hparse, hno] at hobj
    cases hobj
  · intro hbare
    cases hobj : isObjectText sj arguments with
    | true =>
      obtain ⟨value, hparse, hvalue⟩ : ∃ value, sj.fromStr arguments = some value ∧
          value.isObject = true := by simpa [isObjectText, Option.any_eq_true] using hobj
      have hinput : callInput sj wire path arguments report = (value, report) :=
        callInput_object hparse hvalue
      constructor
      · rw [hinput, hvalue]
      · intro other hother _
        rw [hinput]
        exact Option.some.inj (hparse.symm.trans hother)
      · intro hfalse
        rw [hobj] at hfalse
        cases hfalse
      · intro hfalse
        rw [hobj] at hfalse
        cases hfalse
    | false =>
      obtain ⟨event, hdegrade, hinput⟩ := callInput_wrapped hobj hbare
      constructor
      · rw [hinput]
        rfl
      · intro value hparse hvalue
        rw [isObjectText, hparse, Option.any_some, hvalue] at hobj
        cases hobj
      · intro _
        rw [hinput]
        simp [wrappedJson, Value.get?]
      · intro _
        exact ⟨event, hdegrade, by rw [hinput]⟩

/-- Two calls with different arguments that are no objects have different inputs. -/
def Apart (sj : SerdeJson) (wire : ArgumentWire) (path path' arguments arguments' : String)
    (report report' : LossReport) : Prop :=
  isObjectText sj arguments = false → isObjectText sj arguments' = false →
    arguments ≠ arguments' →
    (callInput sj wire path arguments report).1 ≠ (callInput sj wire path' arguments' report').1

/-- Two texts that are no objects stand for different values. -/
def Distinct (sj : SerdeJson) (arguments arguments' : String) : Prop :=
  isObjectText sj arguments = false → isObjectText sj arguments' = false →
    arguments ≠ arguments' → denoted sj arguments ≠ denoted sj arguments'

/-- The inputs of two calls are objects from which both can be recovered and told
apart exactly where none is sent bare and they stand for different values. -/
theorem tool_arguments_recoverable (sj : SerdeJson) (wire : ArgumentWire)
    (path path' arguments arguments' : String) (report report' : LossReport) :
    (Recoverable sj wire path arguments report ∧ Recoverable sj wire path' arguments' report' ∧
      Apart sj wire path path' arguments arguments' report report') ↔
    (¬ SentBare sj wire arguments ∧ ¬ SentBare sj wire arguments' ∧
      Distinct sj arguments arguments') := by
  rw [recoverable_iff, recoverable_iff]
  refine and_congr_right fun hbare => and_congr_right fun hbare' => ?_
  refine forall_congr' fun hobj => forall_congr' fun hobj' => forall_congr' fun _ => ?_
  obtain ⟨_, _, hinput⟩ := callInput_wrapped hobj hbare
  obtain ⟨_, _, hinput'⟩ := callInput_wrapped hobj' hbare'
  rw [hinput, hinput']
  simp [wrappedJson]

/-- `serde_json` on the number 7 and on the string of the same name. -/
def scalarJson : SerdeJson where
  fromStr text :=
    if text = "7" then some 7 else if text = "\"seven\"" then some "seven" else none
  toString _ := "null"

/-- Converse sends the number as it is. -/
theorem converse_number_sent_bare : ¬ ∀ (sj : SerdeJson) (wire : ArgumentWire)
    (path path' arguments arguments' : String) (report report' : LossReport),
    Recoverable sj wire path arguments report ∧ Recoverable sj wire path' arguments' report' ∧
      Apart sj wire path path' arguments arguments' report report' := by
  intro hall
  have hobj := (hall scalarJson .converse "" "" "7" "7" [] []).1.object
  rw [callInput_bare rfl] at hobj
  cases hobj

end Wiremux.ToolArguments
