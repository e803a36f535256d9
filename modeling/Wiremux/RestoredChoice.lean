import Wiremux.ChoiceSwap

set_option autoImplicit false

/-!
# A forced tool choice, put back

A Messages client keeps the tool choice that the encoder relaxed for its model. The restore
reads the finished body back, and knows the relaxed choice by its loss event only.
-/
namespace Wiremux.RestoredChoice
open JsonValue StreamEvents Losses Completion FrameDecoding MessagesItems ToolPreparation
open MessagesCache MessagesSampling MessagesThinking MessagesRequests ChoiceLosses ChoiceSwap

mutual
def depth : Value → ℕ
  | .array items => depthItems items + 1
  | .object fields => depthFields fields + 1
  | _ => 0

def depthItems : List Value → ℕ
  | [] => 0
  | v :: rest => max (depth v) (depthItems rest)

def depthFields : List (String × Value) → ℕ
  | [] => 0
  | (_, v) :: rest => max (depth v) (depthFields rest)
end

mutual
def reread (float : ℚ → ℚ) : Value → Value
  | .number (.float q) => .number (.float (float q))
  | .array items => .array (rereadItems float items)
  | .object fields => .object (rereadFields float fields)
  | other => other

def rereadItems (float : ℚ → ℚ) : List Value → List Value
  | [] => []
  | v :: rest => reread float v :: rereadItems float rest

def rereadFields (float : ℚ → ℚ) : List (String × Value) → List (String × Value)
  | [] => []
  | (key, v) :: rest => (key, reread float v) :: rereadFields float rest
end

def maxDepth : ℕ := 127

/-- `from_slice` of the bytes of a body; `float` is the float that is read from the shortest
text of a float. -/
def readBack (float : ℚ → ℚ) (body : Value) : Option Value :=
  if depth body ≤ maxDepth then some (reread float body) else none

def forcedBack : IrToolChoice → Value → Option Value
  | .named name, obj => some ((obj.insert "type" "tool").insert "name" (.string name))
  | .required, obj => some ((obj.insert "type" "any").remove "name")
  | _, _ => none

def putBackForcedToolChoice (choice : IrToolChoice) (value : Value) : Option Value :=
  match (value.get? "tool_choice").filter Value.isObject with
  | none => some value
  | some obj =>
    if obj.strAt? "type" ≠ some "auto" then some value
    else (forcedBack choice obj).map (value.insert "tool_choice")

/-- The body stands for the bytes that it is written as. -/
def restoreSameWireMessagesToolChoice (float : ℚ → ℚ) (source target : Wire) (choice : IrToolChoice)
    (body : Value) (report : LossReport) : Value × LossReport :=
  if source ≠ .messages ∨ target ≠ .messages then (body, report)
  else
    match report.findIdx? isDowngrade with
    | none => (body, report)
    | some pos =>
      match (readBack float body).bind (putBackForcedToolChoice choice) with
      | none => (body, report)
      | some value => (value, report.eraseIdx pos)

/-- Equal, or objects with the same members in another order. -/
def Same (v w : Value) : Prop :=
  v = w ∨ (v.isObject = true ∧ w.isObject = true ∧ ∀ key, v.get? key = w.get? key)

def SameBody (v w : Value) : Prop := ∀ key, Option.Rel Same (v.get? key) (w.get? key)

def forbiddenOf (profile : ResolvedProfile) : List String :=
  (profile.fingerprint.map (·.forbiddenBodyFields)).getD []

def extraOf (profile : ResolvedProfile) : List (String × Value) :=
  (profile.fingerprint.map (·.extraBody)).getD []

section Properties
variable (sj : SerdeJson) (cc : CharCase) (decimal float : ℚ → ℚ) (ir : IrRequest)
  (profile : ResolvedProfile) (body : Value) (report : LossReport)

def restored : Value × LossReport :=
  restoreSameWireMessagesToolChoice float .messages .messages ir.sampling.toolChoice body report

/-- The restore gives what the encoder gives without its step on the model. -/
def Undone : Prop := ∃ kept, encodeWith sj cc decimal keepForced ir profile = .ok kept ∧
  SameBody (restored float ir body report).1 kept.1 ∧ (restored float ir body report).2 = kept.2

/-- The restore undoes the step on the model and nothing else. -/
structure RestoreHolds : Prop where
  undone : Undone sj cc decimal float ir profile body report
  extra : ∀ field ∈ extraOf profile, field.1 ∉ forbiddenOf profile →
    Option.Rel Same ((restored float ir body report).1.get? field.1) (some field.2)
  forbidden : ∀ key ∈ forbiddenOf profile, (restored float ir body report).1.get? key = none
  thinking : ¬ (thinkingOn (restored float ir body report).1 = true ∧
    forcedKind (restored float ir body report).1 = true)
  otherWires : ∀ source target, source ≠ .messages ∨ target ≠ .messages →
    restoreSameWireMessagesToolChoice float source target ir.sampling.toolChoice body report =
      (body, report)

/-- The model rejects the forced choice, which thinking did not relax before. -/
def relaxes : Bool :=
  rejectsForcedToolChoice ir.model && (isForced ir.sampling.toolChoice &&
    (enabledBudget ir.sampling).isNone)

/-- The reader takes the body, and reads every member as it was written. -/
structure ReadsBack : Prop where
  shallow : depth body ≤ maxDepth
  members : ∀ key v, body.get? key = some v → Same (reread float v) v

/-- The profile sends an own tool choice of the type `auto`. -/
def profileAuto : Bool :=
  !(forbiddenOf profile).contains "tool_choice" &&
    (((extraOf profile).lookup "tool_choice").bind fun choice => choice.strAt? "type") == some "auto"

def sentThinkingOn : Bool :=
  !(forbiddenOf profile).contains "thinking" &&
    match (extraOf profile).lookup "thinking" with
    | some thinking => thinking.strAt? "type" == some "enabled"
    | none => (enabledBudget ir.sampling).isSome

def sentForced : Bool :=
  !(forbiddenOf profile).contains "tool_choice" &&
    match (extraOf profile).lookup "tool_choice" with
    | some choice => choice.strAt? "type" == some "tool" || choice.strAt? "type" == some "any"
    | none => isForced ir.sampling.toolChoice && (enabledBudget ir.sampling).isNone

structure Fits : Prop where
  readable : relaxes ir = true → ReadsBack float body
  choice : relaxes ir = true → profileAuto profile = false
  thinking : ¬ (sentThinkingOn ir profile = true ∧ sentForced ir profile = true)

end Properties

end Wiremux.RestoredChoice
