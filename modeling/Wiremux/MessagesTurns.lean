import Mathlib.Data.List.Chain
import Mathlib.Data.List.TakeWhile
import Wiremux.MessagesToolIds

set_option autoImplicit false

/-!
# The order of turns in a Messages request

Only a user item is joined to the turn before it. Any other item that is not
taken by the turn of an earlier one becomes a message of its own.
-/
namespace Wiremux.MessagesTurns
open JsonValue Losses RequestParts MessagesParts ToolUseIds MessagesItems

def isTurn (message : Value) : Bool :=
  (message.strAt? "role" == some "user" || message.strAt? "role" == some "assistant") &&
    (message.get? "content").any Value.isNonEmptyArray

/-- The messages alternate, and the last one is a user turn. -/
structure Structured (messages : List Value) : Prop where
  turns : ∀ message ∈ messages, isTurn message = true
  alternate : messages.IsChain fun first second => first.strAt? "role" ≠ second.strAt? "role"
  lastUser : ∀ message, messages.getLast? = some message → message.strAt? "role" = some "user"

def isUser : IrItem → Bool
  | .user _ => true
  | _ => false

def isAssistant : IrItem → Bool
  | .assistant _ _ => true
  | _ => false

def turnRole : IrItem → Option Role
  | .user _ | .functionOutput _ _ _ _ => some .user
  | .assistant _ _ | .functionCall _ _ _ _ | .customToolCall _ _ _ => some .assistant
  | .reasoning encrypted summary raw =>
    if (reasoningBlock encrypted summary raw).isSome then some .assistant else none
  | _ => none

/-- The role of the last turn of a list of items. -/
def lastRole (items : List IrItem) : Option Role := items.reverse.findSome? turnRole

/-- The items end with one that `opens`, and then only with ones that `follow`. -/
def endsOpen (opens follows : IrItem → Bool) (items : List IrItem) : Bool :=
  (items.reverse.dropWhile follows).head?.any opens

def absorbed (before : List IrItem) (item : IrItem) : Bool :=
  item.isOutput && endsOpen isUser IrItem.isOutput before ||
    item.isFollowUp && endsOpen isAssistant IrItem.isFollowUp before

/-- An item is hosted or unknown when its message is raw. -/
def isRaw : IrItem → Bool
  | .hostedToolCall _ _ => true
  | .unknown typeName _ => !(typeName == "toolAddition" || typeName == "toolRemoval")
  | _ => false

/-- An item with a turn of its own, other than a user item, follows a turn of the other role. -/
def StartsApart (before : List IrItem) (item : IrItem) : Prop :=
  isUser item = false → absorbed before item = false → ∀ role, turnRole item = some role →
    lastRole before ≠ some role

/-- Turns start apart, and a trailing assistant turn ends with the assistant item or a call. -/
structure TurnsApart (items : List IrItem) : Prop where
  starts : ∀ before item after, items = before ++ item :: after → StartsApart before item
  ends : lastRole items = some .assistant → messagesNeedContinue items = true

def newTurn (before : List IrItem) (item : IrItem) : List Role :=
  match turnRole item with
  | none => []
  | some role =>
    if absorbed before item || (isUser item && lastRole before == some .user) then [] else [role]

def turnsFrom : List IrItem → List IrItem → List Role
  | _, [] => []
  | before, item :: rest => newTurn before item ++ turnsFrom (before ++ [item]) rest

def turns (items : List IrItem) : List Role := turnsFrom [] items

theorem turnsFrom_append (before first second : List IrItem) :
    turnsFrom before (first ++ second) =
      turnsFrom before first ++ turnsFrom (before ++ first) second := by
  induction first generalizing before with
  | nil => rw [List.append_nil]; rfl
  | cons item rest ih =>
    rw [List.cons_append, turnsFrom, ih, turnsFrom, List.append_assoc, List.append_assoc,
      List.singleton_append]

theorem turns_append (first second : List IrItem) :
    turns (first ++ second) = turns first ++ turnsFrom first second := turnsFrom_append [] first second

theorem turns_concat (items : List IrItem) (item : IrItem) :
    turns (items ++ [item]) = turns items ++ newTurn items item := by
  rw [turns_append, turnsFrom, turnsFrom, List.append_nil]

theorem lastRole_concat (items : List IrItem) (item : IrItem) :
    lastRole (items ++ [item]) = (turnRole item).or (lastRole items) := by
  rw [lastRole, List.reverse_concat, List.findSome?_cons]
  cases turnRole item <;> rfl

section
variable {opens follows : IrItem → Bool}

theorem endsOpen_concat (items : List IrItem) (item : IrItem) :
    endsOpen opens follows (items ++ [item]) =
      if follows item then endsOpen opens follows items else opens item := by
  rw [endsOpen, List.reverse_concat, List.dropWhile_cons]
  split <;> rfl

/-- The role of the opening item is the last one, when the others do not change it. -/
theorem lastRole_of_endsOpen {role : Role} (hopens : ∀ item, opens item = true → turnRole item = some role)
    (hfollows : ∀ item, follows item = true → turnRole item = none ∨ turnRole item = some role)
    (items : List IrItem) (h : endsOpen opens follows items = true) : lastRole items = some role := by
  induction items using List.reverseRecOn with
  | nil => cases h
  | append_singleton items item ih =>
    rw [endsOpen_concat] at h
    rw [lastRole_concat]
    split at h
    · rcases hfollows item ‹_› with hnone | hsome
      · rw [hnone, Option.none_or]
        exact ih h
      · rw [hsome]
        rfl
    · rw [hopens item h]
      rfl

end

theorem user_role {item : IrItem} (h : isUser item = true) : turnRole item = some .user := by
  cases item <;> first | rfl | cases h

theorem output_role {item : IrItem} (h : item.isOutput = true) : turnRole item = some .user := by
  cases item <;> first | rfl | cases h

theorem assistant_role {item : IrItem} (h : isAssistant item = true) :
    turnRole item = some .assistant := by
  cases item <;> first | rfl | cases h

theorem followUp_role {item : IrItem} (h : item.isFollowUp = true) :
    turnRole item = none ∨ turnRole item = some .assistant := by
  cases item with
  | reasoning encrypted summary raw =>
    change (if (reasoningBlock encrypted summary raw).isSome then some Role.assistant else none) = none ∨
      (if (reasoningBlock encrypted summary raw).isSome then some Role.assistant else none) = _
    split
    · exact Or.inr rfl
    · exact Or.inl rfl
  | functionCall => exact Or.inr rfl
  | customToolCall => exact Or.inr rfl
  | _ => cases h

theorem absorbed_lastRole {before : List IrItem} {item : IrItem} {role : Role}
    (h : absorbed before item = true) (hrole : turnRole item = some role) :
    lastRole before = some role := by
  rcases Bool.or_eq_true_iff.mp h with h | h
  · obtain ⟨hout, hopen⟩ := Bool.and_eq_true_iff.mp h
    rw [← hrole, output_role hout]
    exact lastRole_of_endsOpen (fun _ => user_role) (fun _ h => Or.inr (output_role h)) before hopen
  · obtain ⟨hfollow, hopen⟩ := Bool.and_eq_true_iff.mp h
    rcases followUp_role hfollow with hnone | hsome
    · cases hnone.symm.trans hrole
    · rw [← hrole, hsome]
      exact lastRole_of_endsOpen (fun _ => assistant_role) (fun _ => followUp_role) before hopen

theorem last_turns (items : List IrItem) : (turns items).getLast? = lastRole items := by
  induction items using List.reverseRecOn with
  | nil => rfl
  | append_singleton items item ih =>
    rw [turns_concat, lastRole_concat, newTurn]
    cases hrole : turnRole item with
    | none => rw [List.append_nil, ih, Option.none_or]
    | some role =>
      dsimp only
      split
      · rename_i hjoin
        rw [List.append_nil, ih, Option.some_or]
        rcases Bool.or_eq_true_iff.mp hjoin with habsorbed | hjoined
        · exact absorbed_lastRole habsorbed hrole
        · obtain ⟨huser, hlast⟩ := Bool.and_eq_true_iff.mp hjoined
          rw [← hrole, user_role huser]
          exact beq_iff_eq.mp hlast
      · rw [List.getLast?_concat, Option.some_or]

theorem forall_split_concat {P : List IrItem → IrItem → Prop} (items : List IrItem) (last : IrItem) :
    (∀ before item after, items ++ [last] = before ++ item :: after → P before item) ↔
      (∀ before item after, items = before ++ item :: after → P before item) ∧ P items last := by
  refine ⟨fun h => ⟨fun before item after hsplit => ?_, h items last [] rfl⟩, fun h => ?_⟩
  · exact h before item (after ++ [last]) (by rw [hsplit, List.append_assoc, List.cons_append])
  · intro before item after hsplit
    rcases List.eq_nil_or_concat after with rfl | ⟨after, other, rfl⟩
    · obtain ⟨rfl, hlast⟩ := List.append_inj' hsplit rfl
      obtain rfl := List.singleton_inj.mp hlast
      exact h.2
    · rw [List.concat_eq_append, ← List.cons_append, ← List.append_assoc] at hsplit
      exact h.1 before item after (List.append_inj' hsplit rfl).1

theorem startsApart_iff (before : List IrItem) (item : IrItem) :
    StartsApart before item ↔ ∀ role ∈ newTurn before item, lastRole before ≠ some role := by
  unfold StartsApart newTurn
  cases hrole : turnRole item with
  | none => simp
  | some role =>
    cases habsorbed : absorbed before item with
    | true => simp
    | false =>
      cases huser : isUser item with
      | false => simp
      | true =>
        obtain rfl := Option.some.inj (hrole.symm.trans (user_role huser))
        simp

/-- The turns alternate when each turn that is begun follows one of the other role. -/
theorem chain_turns (items : List IrItem) :
    (turns items).IsChain (· ≠ ·) ↔
      ∀ before item after, items = before ++ item :: after → StartsApart before item := by
  induction items using List.reverseRecOn with
  | nil =>
    refine ⟨fun _ before item after h => ?_, fun _ => List.IsChain.nil⟩
    simp at h
  | append_singleton items item ih =>
    rw [forall_split_concat, turns_concat, List.isChain_append, ih, last_turns, startsApart_iff]
    refine and_congr_right fun _ => ?_
    unfold newTurn
    cases turnRole item with
    | none => simp
    | some role =>
      dsimp only
      split
      · simp
      · simp only [List.isChain_singleton, true_and, List.head?_cons, Option.mem_def,
          Option.some.injEq, List.mem_singleton, forall_eq, forall_eq', ne_eq]
        exact ⟨fun h heq => h role heq rfl, fun h other hother heq => h (heq ▸ hother)⟩

def messageRole : Message → Option Role
  | .turn role _ => some role
  | .raw _ _ => none

def content : Message → List Block
  | .turn _ content => content
  | .raw _ joined => joined

def HasTurns (messages : List Message) (roles : List Role) : Prop :=
  messages.map messageRole = roles.map some ∧ ∀ message ∈ messages, content message ≠ []

theorem HasTurns.push {messages : List Message} {roles : List Role} (h : HasTurns messages roles)
    (role : Role) {blocks : List Block} (hblocks : blocks ≠ []) :
    HasTurns (messages ++ [.turn role blocks]) (roles ++ [role]) := by
  refine ⟨by rw [List.map_append, List.map_append, h.1]; rfl, fun message hmem => ?_⟩
  rcases List.mem_append.mp hmem with hmem | hmem
  · exact h.2 message hmem
  · obtain rfl := List.mem_singleton.mp hmem
    exact hblocks

theorem HasTurns.pushUser {s : Encoding} {roles : List Role} (h : HasTurns s.messages roles) (idx : ℕ)
    {blocks : List Block} (hblocks : blocks ≠ []) :
    HasTurns (pushAlternatingUser idx blocks s).messages
      (roles ++ if roles.getLast? == some .user then [] else [.user]) := by
  have hlast := congrArg List.getLast? h.1
  rw [List.getLast?_map, List.getLast?_map] at hlast
  unfold pushAlternatingUser
  cases hmessage : s.messages.getLast? with
  | none =>
    rw [hmessage] at hlast
    rw [show roles.getLast? = none by cases hr : roles.getLast? <;> simp_all]
    exact h.push .user hblocks
  | some last =>
    obtain ⟨before, hbefore⟩ := List.getLast?_eq_some_iff.mp hmessage
    cases last with
    | raw value joined =>
      rw [hmessage] at hlast
      cases hr : roles.getLast? <;> simp_all [messageRole]
    | turn role own =>
      have hrole : roles.getLast? = some role := by
        rw [hmessage] at hlast
        cases hr : roles.getLast? <;> simp_all [messageRole]
      rw [hrole]
      cases role with
      | assistant => exact h.push .user hblocks
      | user =>
        change HasTurns (s.messages.dropLast ++ [.turn .user (own ++ blocks)]) (roles ++ [])
        rw [hbefore, List.dropLast_concat, List.append_nil]
        rw [hbefore] at h
        refine ⟨by rw [← h.1, List.map_append, List.map_append]; rfl, fun message hmem => ?_⟩
        rcases List.mem_append.mp hmem with hmem | hmem
        · exact h.2 message (List.mem_append_left _ hmem)
        · obtain rfl := List.mem_singleton.mp hmem
          exact List.append_ne_nil_of_right_ne_nil _ hblocks

/-- Between two rounds: what is behind is written, and the next item is not taken. -/
structure Written (before left : List IrItem) (s : Encoding) : Prop where
  turns : HasTurns s.messages (turns before)
  fresh : ∀ item rest, left = item :: rest → absorbed before item = false
  plain : ∀ item ∈ left, isRaw item = false

section
variable {opens follows : IrItem → Bool}

theorem endsOpen_append {items : List IrItem} (more : List IrItem)
    (h : ∀ item ∈ more, follows item = true) :
    endsOpen opens follows (items ++ more) = endsOpen opens follows items := by
  induction more using List.reverseRecOn with
  | nil => rw [List.append_nil]
  | append_singleton more item ih =>
    rw [← List.append_assoc, endsOpen_concat, h item (by simp), if_pos rfl]
    exact ih fun other hmem => h other (List.mem_append_left _ hmem)

theorem endsOpen_closed {items more : List IrItem} (hne : more ≠ [])
    (h : ∀ item ∈ more, opens item = false ∧ follows item = false) :
    endsOpen opens follows (items ++ more) = false := by
  obtain ⟨more, item, rfl⟩ := List.eq_nil_or_concat more |>.resolve_left hne
  rw [List.concat_eq_append, ← List.append_assoc, endsOpen_concat, (h item (by simp)).2]
  exact (h item (by simp)).1

end

theorem turnsFrom_taken {before items : List IrItem}
    (h : ∀ first item, first <+: items → item ∈ items → absorbed (before ++ first) item = true) :
    turnsFrom before items = [] := by
  induction items generalizing before with
  | nil => rfl
  | cons item rest ih =>
    have hitem := h [] item List.nil_prefix List.mem_cons_self
    rw [List.append_nil] at hitem
    have hrest : turnsFrom (before ++ [item]) rest = [] := by
      refine ih fun first other hfirst hmem => ?_
      rw [List.append_assoc]
      exact h (item :: first) other (List.cons_prefix_cons.mpr ⟨rfl, hfirst⟩)
        (List.mem_cons_of_mem _ hmem)
    rw [turnsFrom, hrest, List.append_nil, newTurn, hitem]
    cases turnRole item <;> rfl

theorem turns_taken {before items : List IrItem} (item : IrItem)
    (h : turnsFrom (before ++ [item]) items = []) :
    turns (before ++ item :: items) = turns before ++ newTurn before item := by
  rw [← List.singleton_append, ← List.append_assoc, turns_append, turns_concat, h, List.append_nil]

theorem isOutput_not {item : IrItem} (h : item.isOutput = true) :
    item.isFollowUp = false ∧ isAssistant item = false ∧ isUser item = false := by
  cases item <;> first | exact ⟨rfl, rfl, rfl⟩ | cases h

theorem isFollowUp_not {item : IrItem} (h : item.isFollowUp = true) :
    item.isOutput = false ∧ isUser item = false ∧ isAssistant item = false := by
  cases item <;> first | exact ⟨rfl, rfl, rfl⟩ | cases h

theorem turnsFrom_outputs (before : List IrItem) (parts : List IrPart) {outs : List IrItem}
    (h : ∀ item ∈ outs, item.isOutput = true) :
    turnsFrom (before ++ [.user parts]) outs = [] := by
  refine turnsFrom_taken fun first item hfirst hmem => ?_
  rw [absorbed, endsOpen_append first fun other hother => h other (hfirst.subset hother),
    endsOpen_concat, h item hmem]
  rfl

theorem turnsFrom_followUps (before : List IrItem) (parts : List IrPart) (phase : Option String)
    {calls : List IrItem} (h : ∀ item ∈ calls, item.isFollowUp = true) :
    turnsFrom (before ++ [.assistant parts phase]) calls = [] := by
  refine turnsFrom_taken fun first item hfirst hmem => ?_
  rw [absorbed, endsOpen_append first fun other hother => h other (hfirst.subset hother),
    endsOpen_concat, h item hmem]
  exact Bool.or_true _

theorem fresh_user (before outs : List IrItem) (parts : List IrPart) {item : IrItem}
    (houts : ∀ other ∈ outs, other.isOutput = true) (hitem : item.isOutput = false) :
    absorbed (before ++ .user parts :: outs) item = false := by
  have hclosed : endsOpen isAssistant IrItem.isFollowUp (before ++ .user parts :: outs) = false := by
    refine endsOpen_closed (List.cons_ne_nil _ _) fun other hmem => ?_
    rcases List.mem_cons.mp hmem with rfl | hmem
    · exact ⟨rfl, rfl⟩
    · exact ⟨(isOutput_not (houts other hmem)).2.1, (isOutput_not (houts other hmem)).1⟩
  rw [absorbed, hclosed, hitem, Bool.and_false]
  rfl

theorem fresh_assistant (before calls : List IrItem) (parts : List IrPart) (phase : Option String)
    {item : IrItem} (hcalls : ∀ other ∈ calls, other.isFollowUp = true)
    (hitem : item.isFollowUp = false) :
    absorbed (before ++ .assistant parts phase :: calls) item = false := by
  have hclosed : endsOpen isUser IrItem.isOutput (before ++ .assistant parts phase :: calls) = false := by
    refine endsOpen_closed (List.cons_ne_nil _ _) fun other hmem => ?_
    rcases List.mem_cons.mp hmem with rfl | hmem
    · exact ⟨rfl, rfl⟩
    · exact ⟨(isFollowUp_not (hcalls other hmem)).2.1, (isFollowUp_not (hcalls other hmem)).1⟩
  rw [absorbed, hclosed, hitem, Bool.and_false]
  rfl

theorem fresh_single (before : List IrItem) {item other : IrItem} (huser : isUser item = false)
    (hassistant : isAssistant item = false) (hfresh : absorbed before item = false) :
    absorbed (before ++ [item]) other = false := by
  obtain ⟨hout, hcall⟩ := Bool.or_eq_false_iff.mp hfresh
  rw [absorbed, endsOpen_concat, endsOpen_concat, huser, hassistant]
  cases hisout : item.isOutput <;> cases hiscall : item.isFollowUp <;> simp_all

variable {sj : SerdeJson}

theorem newTurn_own {before : List IrItem} {item : IrItem} {role : Role}
    (hrole : turnRole item = some role) (huser : isUser item = false)
    (hfresh : absorbed before item = false) : newTurn before item = [role] := by
  rw [newTurn, hrole, hfresh, huser]
  rfl

theorem newTurn_none {before : List IrItem} {item : IrItem} (hrole : turnRole item = none) :
    newTurn before item = [] := by rw [newTurn, hrole]

theorem newTurn_user (before : List IrItem) (parts : List IrPart) :
    newTurn before (.user parts) = if lastRole before == some .user then [] else [.user] := rfl

theorem encodeUserParts_ne_nil (idx : ℕ) (parts : List IrPart) : (encodeUserParts idx parts).1 ≠ [] := by
  unfold encodeUserParts
  dsimp only
  split
  · exact List.cons_ne_nil _ _
  · rename_i hne
    intro hnil
    exact hne (by rw [List.map_eq_nil_iff.mp hnil]; rfl)

variable {before : List IrItem} {s : Encoding}

theorem encodeUser_turns (h : HasTurns s.messages (turns before)) (idx : ℕ) (parts : List IrPart)
    (rest : List IrItem) :
    HasTurns (encodeUser sj idx parts rest s).messages
      (turns before ++ newTurn before (.user parts)) := by
  have hresults := (MessagesToolIds.followingResults_collects sj (idx + 1) rest
    (s.note (encodeUserParts idx parts).2)).messages
  rw [newTurn_user, ← last_turns]
  refine HasTurns.pushUser ?_ idx (List.append_ne_nil_of_left_ne_nil (encodeUserParts_ne_nil idx parts) _)
  rw [hresults]
  exact h

theorem encodeAssistant_turns (h : HasTurns s.messages (turns before)) (idx : ℕ)
    (parts : List IrPart) (rest : List IrItem) :
    HasTurns (encodeAssistant sj idx parts rest s).messages (turns before ++ [.assistant]) := by
  have hcalls := (MessagesToolIds.followingCalls_collects sj (idx + 1) rest
    (s.note (encodeParts parts).2)).messages
  have hturns : HasTurns (followingCalls sj (idx + 1) rest (s.note (encodeParts parts).2)).2.messages
      (turns before) := by
    rw [hcalls]
    exact h
  unfold encodeAssistant
  dsimp only
  split
  · exact hturns.push .assistant (List.cons_ne_nil dot [])
  · rename_i hne
    exact hturns.push .assistant fun hnil => hne (List.isEmpty_iff.mpr hnil)

theorem encodeReasoning_turns (h : HasTurns s.messages (turns before)) (idx : ℕ)
    (encrypted summary : Option String) (raw : Option Value)
    (hfresh : absorbed before (.reasoning encrypted summary raw) = false) :
    HasTurns (encodeReasoning idx (reasoningBlock encrypted summary raw) s).messages
      (turns before ++ newTurn before (.reasoning encrypted summary raw)) := by
  have hrole : turnRole (.reasoning encrypted summary raw) =
      if (reasoningBlock encrypted summary raw).isSome then some Role.assistant else none := rfl
  cases hblock : reasoningBlock encrypted summary raw with
  | none =>
    rw [hblock] at hrole
    rw [newTurn_none hrole, List.append_nil]
    exact h
  | some value =>
    rw [hblock] at hrole
    rw [newTurn_own hrole rfl hfresh]
    exact h.push .assistant (List.cons_ne_nil _ _)

theorem encodeItem_turns (sj : SerdeJson) (idx : ℕ) {item : IrItem} {rest : List IrItem}
    (h : Written before (item :: rest) s) :
    HasTurns (encodeItem sj idx item rest s).2.messages (turns before ++ newTurn before item) := by
  have hfresh := h.fresh item rest rfl
  have hplain := h.plain item List.mem_cons_self
  have hsame : HasTurns s.messages (turns before ++ []) := by
    rw [List.append_nil]
    exact h.turns
  cases item with
  | user parts => exact encodeUser_turns h.turns idx parts rest
  | assistant parts phase =>
    rw [newTurn_own rfl rfl hfresh]
    exact encodeAssistant_turns (s := s.note (dropPhase idx phase)) h.turns idx parts rest
  | functionCall callId name arguments signature =>
    rw [newTurn_own rfl rfl hfresh]
    exact h.turns.push .assistant (List.cons_ne_nil _ _)
  | customToolCall callId name input =>
    rw [newTurn_own rfl rfl hfresh]
    exact h.turns.push .assistant (List.cons_ne_nil _ _)
  | functionOutput callId output parts isError =>
    rw [newTurn_own rfl rfl hfresh]
    exact h.turns.push .user (List.cons_ne_nil _ _)
  | reasoning encrypted summary raw => exact encodeReasoning_turns h.turns idx encrypted summary raw hfresh
  | hostedToolCall kind raw => cases hplain
  | unknown typeName raw =>
    have htype : typeName = "toolAddition" ∨ typeName = "toolRemoval" := by
      simpa [isRaw, or_iff_not_imp_left] using hplain
    rw [encodeItem, if_pos htype]
    exact hsame
  | system r => exact hsame
  | systemCache raw => exact hsame
  | systemGuard raw => exact hsame
  | developer r => exact hsame

theorem next_not {p : IrItem → Bool} {rest left more : List IrItem} {item : IrItem}
    (hrest : rest = rest.takeWhile p ++ left) (hleft : left = item :: more) : p item = false := by
  have hdrop : rest.dropWhile p = item :: more := by
    rw [← hleft]
    exact List.append_cancel_left ((List.takeWhile_append_dropWhile).trans hrest)
  have hhead := List.head?_dropWhile_not p rest
  rw [hdrop] at hhead
  exact hhead

theorem encodeItem_written (sj : SerdeJson) (idx : ℕ) {item : IrItem} {rest left : List IrItem}
    (hrest : rest = taken item rest ++ left) (h : Written before (item :: rest) s) :
    Written (before ++ item :: taken item rest) left (encodeItem sj idx item rest s).2 := by
  have hfresh := h.fresh item rest rfl
  have hplain : ∀ other ∈ left, isRaw other = false := fun other hmem =>
    h.plain other (List.mem_cons_of_mem _ (by rw [hrest]; exact List.mem_append_right _ hmem))
  have hturns := encodeItem_turns sj idx h
  cases item with
  | user parts =>
    change rest = rest.takeWhile IrItem.isOutput ++ left at hrest
    change Written (before ++ .user parts :: rest.takeWhile IrItem.isOutput) left _
    have houts : ∀ other ∈ rest.takeWhile IrItem.isOutput, other.isOutput = true :=
      fun _ => List.mem_takeWhile_imp
    refine ⟨?_, fun other more hleft => ?_, hplain⟩
    · rw [turns_taken _ (turnsFrom_outputs before parts houts)]
      exact hturns
    · exact fresh_user before _ parts houts (next_not hrest hleft)
  | assistant parts phase =>
    change rest = rest.takeWhile IrItem.isFollowUp ++ left at hrest
    change Written (before ++ .assistant parts phase :: rest.takeWhile IrItem.isFollowUp) left _
    have hcalls : ∀ other ∈ rest.takeWhile IrItem.isFollowUp, other.isFollowUp = true :=
      fun _ => List.mem_takeWhile_imp
    refine ⟨?_, fun other more hleft => ?_, hplain⟩
    · rw [turns_taken _ (turnsFrom_followUps before parts phase hcalls)]
      exact hturns
    · exact fresh_assistant before _ parts phase hcalls (next_not hrest hleft)
  | _ =>
    refine ⟨?_, fun other more _ => fresh_single before rfl rfl hfresh, hplain⟩
    rw [turns_taken _ rfl]
    exact hturns

/-- No item is a hosted or unknown one that is sent as it is. -/
def NoRaw (items : List IrItem) : Prop := ∀ item ∈ items, isRaw item = false

theorem encodeFrom_written (sj : SerdeJson) {items : List IrItem} (hraw : NoRaw items) :
    HasTurns (encodeFrom sj 0 0 items start).messages (turns items) := by
  have hstart : Written [] items start := by
    refine ⟨⟨rfl, fun _ hmem => by cases hmem⟩, fun item rest _ => ?_, hraw⟩
    cases item <;> rfl
  have hend := encodeFrom_keeps Written
    (fun pre idx item rest left s hrest h => encodeItem_written sj idx hrest h)
    [] 0 items start hstart
  exact hend.turns

/-- With the turn that is added behind a trailing assistant item or call. -/
def allTurns (items : List IrItem) : List Role :=
  turns items ++ if messagesNeedContinue items then [.user] else []

theorem encodeTurns_written {items : List IrItem} (hraw : NoRaw items) :
    HasTurns (encodeTurns sj items).messages (allTurns items) := by
  have hloop := encodeFrom_written sj hraw
  unfold encodeTurns allTurns
  dsimp only
  split
  · exact hloop.push .user (List.cons_ne_nil _ _)
  · rwa [List.append_nil]

theorem needContinue_role {items : List IrItem} (h : messagesNeedContinue items = true) :
    lastRole items = some .assistant := by
  rcases List.eq_nil_or_concat items with rfl | ⟨items, item, rfl⟩
  · cases h
  · rw [List.concat_eq_append] at h ⊢
    rw [messagesNeedContinue, List.getLast?_concat] at h
    rw [lastRole_concat]
    cases item <;> first | rfl | cases h

theorem allTurns_iff (items : List IrItem) :
    ((allTurns items).IsChain (· ≠ ·) ∧ ∀ role, (allTurns items).getLast? = some role → role = .user) ↔
      TurnsApart items := by
  have hchain := chain_turns items
  unfold allTurns
  cases hneed : messagesNeedContinue items with
  | true =>
    have hlast := needContinue_role hneed
    rw [if_pos rfl, List.isChain_append, List.getLast?_concat, last_turns, hlast, hchain]
    refine ⟨fun h => ⟨h.1.1, fun _ => hneed⟩, fun h => ⟨⟨h.starts, List.isChain_singleton _, ?_⟩, ?_⟩⟩
    · intro role hrole other hother
      obtain rfl := Option.some.inj hrole
      obtain rfl := Option.some.inj hother
      exact fun heq => by cases heq
    · exact fun role hrole => (Option.some.inj hrole).symm
  | false =>
    rw [if_neg (by decide), List.append_nil, last_turns, hchain]
    refine ⟨fun h => ⟨h.1, fun hlast => ?_⟩, fun h => ⟨h.starts, fun role hrole => ?_⟩⟩
    · cases h.2 .assistant hlast
    · cases role with
      | user => rfl
      | assistant => cases hneed.symm.trans (h.ends hrole)

theorem turn_role (message : Message) (role : Role) (h : messageRole message = some role) :
    message.toJson.strAt? "role" = some role.name := by
  cases message with
  | raw value joined => cases h
  | turn own blocks =>
    obtain rfl := Option.some.inj h
    rfl

theorem turn_isTurn (message : Message) (role : Role) (h : messageRole message = some role)
    (hne : content message ≠ []) : isTurn message.toJson = true := by
  cases message with
  | raw value joined => cases h
  | turn own blocks =>
    cases blocks with
    | nil => exact absurd rfl hne
    | cons block rest => cases own <;> rfl

theorem rolesJson {messages : List Message} {roles : List Role} (h : HasTurns messages roles) :
    (messages.map Message.toJson).map (fun m => m.strAt? "role") =
      roles.map fun role => some role.name := by
  have hroles := h.1
  clear h
  induction messages generalizing roles with
  | nil => cases roles <;> first | rfl | cases hroles
  | cons message rest ih =>
    cases roles with
    | nil => cases hroles
    | cons role more =>
      obtain ⟨hhead, htail⟩ := List.cons.inj hroles
      rw [List.map_cons, List.map_cons, List.map_cons, turn_role message role hhead, ih htail]

theorem structured_iff {messages : List Message} {roles : List Role} (h : HasTurns messages roles) :
    Structured (messages.map Message.toJson) ↔
      roles.IsChain (· ≠ ·) ∧ ∀ role, roles.getLast? = some role → role = .user := by
  have hroles := rolesJson h
  have hname : ∀ first second : Role, some first.name ≠ some second.name ↔ first ≠ second := by
    intro first second
    cases first <;> cases second <;> decide
  have hchain : (messages.map Message.toJson).IsChain
      (fun first second => first.strAt? "role" ≠ second.strAt? "role") ↔ roles.IsChain (· ≠ ·) := by
    rw [← List.isChain_map (R := (· ≠ ·)) (fun m : Value => m.strAt? "role"), hroles, List.isChain_map]
    exact List.IsChain.iff hname
  have hlast : (messages.map Message.toJson).getLast?.map (fun m => m.strAt? "role") =
      roles.getLast?.map fun role => some role.name := by
    rw [← List.getLast?_map, hroles, List.getLast?_map]
  refine ⟨fun hs => ⟨hchain.mp hs.alternate, fun role hrole => ?_⟩, fun hr => ?_⟩
  · rw [hrole] at hlast
    obtain ⟨message, hmessage, hname⟩ := Option.map_eq_some_iff.mp hlast
    have huser := hname.symm.trans (hs.lastUser message hmessage)
    cases role with
    | user => rfl
    | assistant => exact absurd huser (by decide)
  · refine ⟨fun message hmem => ?_, hchain.mpr hr.1, fun message hmessage => ?_⟩
    · obtain ⟨turn, hturn, rfl⟩ := List.mem_map.mp hmem
      have hrole : messageRole turn ∈ roles.map some := by
        rw [← h.1]
        exact List.mem_map_of_mem hturn
      obtain ⟨role, _, hrole⟩ := List.mem_map.mp hrole
      exact turn_isTurn turn role hrole.symm (h.2 turn hturn)
    · rw [hmessage] at hlast
      obtain ⟨role, hrole, hname⟩ := Option.map_eq_some_iff.mp hlast.symm
      obtain rfl := hr.2 role hrole
      exact hname.symm

def encodedMessages (sj : SerdeJson) (items : List IrItem) : List Value :=
  (encodeTurns sj items).messages.map Message.toJson

/-- Without raw items, the body has this structure exactly when the turns of the items are apart. -/
theorem messages_structured_iff (sj : SerdeJson) (items : List IrItem) (hraw : NoRaw items) :
    (encodeItems sj items).2.1 = .array (encodedMessages sj items) ∧
      (Structured (encodedMessages sj items) ↔ TurnsApart items) :=
  ⟨rfl, (structured_iff (encodeTurns_written hraw)).trans (allTurns_iff items)⟩

/-- A user turn and an answer. -/
def oneExchange : List IrItem := [.user [.text "hi"], .assistant [.text "hello"] none]

theorem messages_structured_exchange :
    NoRaw oneExchange ∧ (Structured (encodedMessages flatJson oneExchange) ↔ TurnsApart oneExchange) := by
  have hraw : NoRaw oneExchange := by
    intro item hmem
    rcases List.mem_cons.mp hmem with rfl | hmem
    · rfl
    · obtain rfl := List.mem_singleton.mp hmem
      rfl
  exact ⟨hraw, (messages_structured_iff flatJson oneExchange hraw).2⟩

/-- Two calls without an assistant item, as Responses sends parallel calls. -/
def parallelCalls : List IrItem :=
  [.user [.text "hi"], .functionCall "a" "f" "{}" none, .functionCall "b" "f" "{}" none,
    .functionOutput "a" "1" [] false]

theorem parallel_calls_not_joined : ¬ Structured (encodedMessages flatJson parallelCalls) := by
  intro h
  have hroles : (encodedMessages flatJson parallelCalls).map (fun m => m.strAt? "role") =
      [some "user", some "assistant", some "assistant", some "user"] := rfl
  have hchain := (List.isChain_map (R := (· ≠ ·)) fun m : Value => m.strAt? "role").mpr h.alternate
  rw [hroles] at hchain
  exact absurd hchain (by decide)

end Wiremux.MessagesTurns
