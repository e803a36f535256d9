import Mathlib.Data.List.TakeWhile
import Wiremux.MessagesMarkers
import Wiremux.SystemText

set_option autoImplicit false

/-!
# The system prompt prefix of a profile

The prefix is written into the first system item before the wire encodes the
items. It is followed into the slot of each wire, and back through the decoder.
-/
namespace Wiremux.SystemPrefix
open JsonValue StreamEvents Completion RequestParts SystemText MessagesCache MessagesSampling MessagesThinking

/-- An item as the system slots see it; users, assistants, calls and results are turns. -/
inductive Item where
  | role (item : IrItem)
  | systemCache (raw : Value)
  | systemGuard (raw : Value)
  | hosted (kind : String) (raw : Value)
  | unknown (typeName : String) (raw : Value)
  | turn

def startsWith (text pre : String) : Bool := pre.toList.isPrefixOf text.toList

def prefixed (pre : String) (r : RoleText) : RoleText :=
  { r with text := if startsWith r.text pre then r.text else pre ++ r.text }

/-- The items with the first system item rewritten, when there is one. -/
def prefixFirst (pre : String) : List Item → Option (List Item)
  | [] => none
  | .role (.system r) :: rest => some (.role (.system (prefixed pre r)) :: rest)
  | item :: rest => (prefixFirst pre rest).map (item :: ·)

def prefixItem (pre : String) : RoleText := ⟨pre, none, []⟩

def applySystemPrefix (pre : Option String) (items : List Item) : List Item :=
  match pre.filter fun p => !p.isEmpty with
  | none => items
  | some pre => (prefixFirst pre items).getD (.role (.system (prefixItem pre)) :: items)

def roleOf : Item → Option RoleText
  | .role item => some item.role
  | _ => none

def rolesOf (items : List Item) : List RoleText := items.filterMap roleOf

/-- A tool that Bedrock adds or removes has no slot on the other wires. -/
def toolSetChange (typeName : String) : Bool := typeName == "toolAddition" || typeName == "toolRemoval"

def roleName : IrItem → String
  | .system _ => "system"
  | .developer _ => "developer"

section Encoders

-- `parts` encodes the ordered parts of a role, `turns` the item at an index.
variable (parts : List IrPart → Value) (turns : ℕ → List Value)

def markedText (type text mode : String) : Value :=
  .array [.object [("type", .string type), ("text", .string text),
    ("prompt_cache_breakpoint", .object [("mode", .string mode)])]]

def roleTextContent (text : String) (mode : Option String) : Value :=
  match mode.filter fun m => !m.isEmpty with
  | none => .string text
  | some mode => markedText "text" text mode

def chatMessage (item : IrItem) : Value :=
  .object [("role", .string (roleName item)), ("content",
    if item.role.contentParts.isEmpty then
      roleTextContent item.role.text item.role.promptCacheBreakpoint
    else parts item.role.contentParts)]

def chatStringRole (raw : Value) : Bool := (raw.strAt? "role").isSome

def chatMessages (idx : ℕ) : Item → List Value
  | .role item => [chatMessage parts item]
  | .systemCache _ | .systemGuard _ => []
  | .hosted _ raw => if chatStringRole raw then [raw] else []
  | .unknown typeName raw => if !toolSetChange typeName && chatStringRole raw then [raw] else []
  | .turn => turns idx

def encodeMessages : ℕ → List Item → List Value
  | _, [] => []
  | idx, item :: rest => chatMessages parts turns idx item ++ encodeMessages (idx + 1) rest

def inputMessage (item : IrItem) : Value :=
  .object [("role", .string (roleName item)), ("content",
    if item.role.contentParts.isEmpty then
      markedText "input_text" item.role.text (item.role.promptCacheBreakpoint.getD "")
    else parts item.role.contentParts)]

def inputItems (idx : ℕ) : Item → List Value
  | .role item => if inInput item.role then [inputMessage parts item] else []
  | .systemCache _ | .systemGuard _ => []
  | .hosted _ raw => [raw]
  | .unknown typeName raw => if toolSetChange typeName then [] else [raw]
  | .turn => turns idx

def encodeInput : ℕ → List Item → List Value
  | _, [] => []
  | idx, item :: rest => inputItems parts turns idx item ++ encodeInput (idx + 1) rest

def joinLines : List String → String
  | [] => ""
  | [text] => text
  | text :: rest => text ++ "\n\n" ++ joinLines rest

def joinedInstructions (roles : List RoleText) : Option String :=
  match instructions roles with
  | [] => none
  | texts => some (joinLines texts)

def converseBlock : Item → Option Value
  | .role item =>
    if (sentText item.role).isEmpty then none else some (plainBlock (sentText item.role))
  | .systemCache raw => some (.object [("cachePoint", raw)])
  | .systemGuard raw => some (.object [("guardContent", raw)])
  | _ => none

def converseSlot (items : List Item) : Option Value :=
  match items.filterMap converseBlock with
  | [] => none
  | blocks => some (.array blocks)

/-- The fields of the body that hold system text. -/
def slots (wire : Wire) (items : List Item) : List (String × Value) :=
  match wire with
  | .chatCompletions => [("messages", .array (encodeMessages parts turns 0 items))]
  | .messages => (messagesSystem (rolesOf items)).toList.map fun value => ("system", value)
  | .responses =>
    ("input", .array (encodeInput parts turns 0 items)) ::
      (joinedInstructions (rolesOf items)).toList.map fun text => ("instructions", .string text)
  | .gemini =>
    (geminiSystemInstruction (rolesOf items)).toList.map fun value => ("systemInstruction", value)
  | .converse => (converseSlot items).toList.map fun value => ("system", value)

def writeFields (body : Value) (fields : List (String × Value)) : Value :=
  fields.foldl (fun body f => body.insert f.1 f.2) body

/-- What of a profile's fingerprint reaches the body. -/
structure Profile extends Fingerprint where
  systemPromptPrefix : Option String := none
  extraBody : List (String × Value) := []

def placeBreakpoints (wire : Wire) (cache : IrCache) (estimated : ℕ) (body : Value) : Value :=
  if wire = .messages then (applyCacheBreakpoints body cache estimated []).1 else body

/-- `encode` of `map`; `other` are the fields of the body without system text. -/
def encode (wire : Wire) (profile : Profile) (cache : IrCache) (estimated : ℕ)
    (other : List (String × Value)) (items : List Item) : Except MapError Value :=
  let items := applySystemPrefix profile.systemPromptPrefix items
  let body := placeBreakpoints wire cache estimated
    (writeFields (.object other) (slots parts turns wire items))
  applyForbiddenFields profile.toFingerprint (writeFields body profile.extraBody)

end Encoders

def systemItem (text : String) : IrItem := .system ⟨text, none, []⟩

def shownItem (text : Option String) : Option IrItem :=
  (text.filter fun t => !t.isEmpty).map systemItem

def decodeMessagesSystem : Option Value → List IrItem
  | some (.string text) => [systemItem text]
  | some (.array blocks) => blocks.filterMap fun block => shownItem (block.strAt? "text")
  | _ => []

def decodeInstruction (value : Option Value) : List IrItem :=
  let parts := (value.bind fun v => v.get? "parts").bind Value.asArray?
  (shownItem (parts.map fun parts => join (parts.filterMap fun part => part.strAt? "text"))).toList

/-- `decode_system` of Converse; cache points and guard content are left out. -/
def decodeConverseSystem : Option Value → List IrItem
  | some (.string text) => (shownItem (some text)).toList
  | some (.array blocks) => blocks.filterMap fun block => shownItem (block.strAt? "text")
  | _ => []

/-- The system and developer items of a decoded body. -/
def decodeRoles (wire : Wire) (body : Value) : List Item :=
  (match wire with
  | .chatCompletions => decode .chatCompletions body
  | .messages => decodeMessagesSystem (body.get? "system")
  | .responses => decode .responses body
  | .gemini => decodeInstruction (body.get? "systemInstruction")
  | .converse => decodeConverseSystem (body.get? "system")).map .role

def isSystemMessage (message : Value) : Bool := message.strAt? "role" == some "system"

/-- The text of the system slot: its first block, or the first system message. -/
def slotText (wire : Wire) (body : Value) : Option String :=
  match wire with
  | .chatCompletions => ((Completion.items (body.get? "messages")).find? isSystemMessage).map
      fun message => join (readTexts (message.get? "content"))
  | .messages => (readTexts (body.get? "system")).head?
  | .responses => body.strAt? "instructions"
  | .gemini => (readTexts ((body.get? "systemInstruction").bind fun v => v.get? "parts")).head?
  | .converse => (readTexts (body.get? "system")).head?

def systemRole : Item → Option RoleText
  | .role (.system r) => some r
  | _ => none

/-- The first system item. -/
def leading (items : List Item) : Option RoleText := items.findSome? systemRole

/-- The items in front of the one that takes the prefix. -/
def before (items : List Item) : List Item :=
  if (leading items).isSome then items.takeWhile fun item => (systemRole item).isNone else []

def carrier (pre : String) (items : List Item) : RoleText :=
  match leading items with
  | some r => prefixed pre r
  | none => prefixItem pre

theorem startsWith_append (pre text : String) : startsWith (pre ++ text) pre = true := by
  rw [startsWith, List.isPrefixOf_iff_prefix, String.toList_append]
  exact List.prefix_append _ _

theorem startsWith_self (pre : String) : startsWith pre pre = true :=
  List.isPrefixOf_iff_prefix.mpr (List.prefix_refl _)

theorem startsWith_prefixed (pre : String) (r : RoleText) : startsWith (prefixed pre r).text pre = true := by
  unfold prefixed
  dsimp only
  split
  · assumption
  · exact startsWith_append _ _

theorem startsWith_carrier (pre : String) (items : List Item) :
    startsWith (carrier pre items).text pre = true := by
  unfold carrier
  split
  · exact startsWith_prefixed _ _
  · exact startsWith_self _

theorem ne_empty_of_startsWith {text pre : String} (hpre : pre ≠ "") (h : startsWith text pre = true) :
    text ≠ "" := by
  rintro rfl
  refine hpre (String.toList_inj.mp ?_)
  exact List.prefix_nil.mp (List.isPrefixOf_iff_prefix.mp h)

theorem startsWith_trans {longer text pre : String} (h : startsWith text pre = true)
    (hlonger : text.toList <+: longer.toList) : startsWith longer pre = true :=
  List.isPrefixOf_iff_prefix.mpr ((List.isPrefixOf_iff_prefix.mp h).trans hlonger)

theorem prefixed_of_startsWith {pre : String} {r : RoleText} (h : startsWith r.text pre = true) :
    prefixed pre r = r := by
  unfold prefixed
  rw [if_pos h]

theorem prefixFirst_none {pre : String} {items : List Item} (h : leading items = none) :
    prefixFirst pre items = none := by
  induction items with
  | nil => rfl
  | cons item rest ih =>
    have hrest : systemRole item = none ∧ leading rest = none := by
      unfold leading at h ⊢
      rw [List.findSome?_cons] at h
      cases hrole : systemRole item with
      | some r =>
        rw [hrole] at h
        cases h
      | none =>
        rw [hrole] at h
        exact ⟨rfl, h⟩
    cases item with
    | role item =>
      cases item with
      | system r => cases hrest.1
      | developer r => exact congrArg (Option.map _) (ih hrest.2)
    | _ => exact congrArg (Option.map _) (ih hrest.2)

theorem prefixFirst_some {pre : String} {items : List Item} {r : RoleText} (h : leading items = some r) :
    ∃ after, items = items.takeWhile (fun item => (systemRole item).isNone) ++ .role (.system r) :: after ∧
      prefixFirst pre items = some (items.takeWhile (fun item => (systemRole item).isNone) ++
        .role (.system (prefixed pre r)) :: after) := by
  induction items with
  | nil => cases h
  | cons item rest ih =>
    have hskip : systemRole item = none → ∃ after, item :: rest =
        (item :: rest).takeWhile (fun item => (systemRole item).isNone) ++ .role (.system r) :: after ∧
        (prefixFirst pre rest).map (item :: ·) = some
          ((item :: rest).takeWhile (fun item => (systemRole item).isNone) ++
            .role (.system (prefixed pre r)) :: after) := by
      intro hrole
      unfold leading at h
      rw [List.findSome?_cons, hrole] at h
      obtain ⟨after, hrest, hput⟩ := ih h
      refine ⟨after, ?_, ?_⟩
      · rw [List.takeWhile_cons, hrole, Option.isNone_none, if_pos rfl, List.cons_append, ← hrest]
      · rw [List.takeWhile_cons, hrole, Option.isNone_none, if_pos rfl, hput]
        rfl
    cases item with
    | role item =>
      cases item with
      | system own =>
        obtain rfl : own = r := Option.some.inj h
        exact ⟨rest, rfl, rfl⟩
      | developer own => exact hskip rfl
    | _ => exact hskip rfl

theorem apply_split {pre : String} (hpre : pre ≠ "") (items : List Item) :
    ∃ after, applySystemPrefix (some pre) items =
      before items ++ .role (.system (carrier pre items)) :: after := by
  have hfilter : (some pre).filter (fun p => !p.isEmpty) = some pre := by
    simpa [Option.filter] using hpre
  unfold applySystemPrefix before carrier
  rw [hfilter]
  dsimp only
  cases hleading : leading items with
  | none => exact ⟨items, by rw [prefixFirst_none hleading]; rfl⟩
  | some r =>
    obtain ⟨after, _, hput⟩ := prefixFirst_some hleading
    exact ⟨after, by rw [hput]; rfl⟩

theorem apply_of_leading {pre : String} {items : List Item} {r : RoleText}
    (h : leading items = some r) (hstart : startsWith r.text pre = true) :
    applySystemPrefix (some pre) items = items := by
  unfold applySystemPrefix
  split
  · rfl
  · rename_i p hfilter
    obtain rfl := Option.some.inj (Option.filter_eq_some_iff.mp hfilter).1
    obtain ⟨after, hitems, hput⟩ := prefixFirst_some h
    rw [hput, Option.getD_some, prefixed_of_startsWith hstart]
    exact hitems.symm

theorem systemRole_before {items : List Item} : ∀ item ∈ before items, systemRole item = none := by
  intro item hmem
  unfold before at hmem
  split at hmem
  · have hnone := List.mem_takeWhile_imp hmem
    exact Option.isNone_iff_eq_none.mp hnone
  · cases hmem

/-- The field of the body that the prefix goes to. -/
def slotKey : Wire → String
  | .chatCompletions => "messages"
  | .messages => "system"
  | .responses => "instructions"
  | .gemini => "systemInstruction"
  | .converse => "system"

def rawOf : Item → Option Value
  | .hosted _ raw => some raw
  | .unknown _ raw => some raw
  | _ => none

/-- The role that takes the prefix has one text, and that text comes first in the slot. -/
structure Leads (wire : Wire) (items : List Item) : Prop where
  plain : ∀ r, leading items = some r → r.contentParts = []
  order : wire ≠ .chatCompletions → ∀ r, .role (.developer r) ∉ before items
  inline : wire = .responses → ∀ r, leading items = some r → inInput r = false
  passed : wire = .chatCompletions → ∀ item ∈ before items, ∀ raw, rawOf item = some raw →
    isSystemMessage raw = false

/-- The slot of a body begins with the prefix, and so does what is decoded from it. -/
def Leading (wire : Wire) (pre : String) (body : Value) : Prop :=
  (∃ text, slotText wire body = some text ∧ startsWith text pre = true) ∧
    ∃ r, leading (decodeRoles wire body) = some r ∧ startsWith r.text pre = true

variable {pre : String} {r : RoleText} {front after : List Item}

theorem leading_append {items : List Item} (h : ∀ item ∈ front, systemRole item = none) :
    leading (front ++ items) = leading items := by
  unfold leading
  rw [List.findSome?_append, List.findSome?_eq_none_iff.mpr h, Option.none_or]

theorem leading_systemItem (text : String) (rest : List IrItem) :
    leading ((systemItem text :: rest).map .role) = some ⟨text, none, []⟩ := rfl

theorem shownItem_some {text : String} (h : text ≠ "") : shownItem (some text) = some (systemItem text) := by
  simp [shownItem, Option.filter, h]

theorem rolesOf_split (hfront : ∀ item ∈ front, roleOf item = none) :
    rolesOf (front ++ .role (.system r) :: after) = r :: rolesOf after := by
  unfold rolesOf
  rw [List.filterMap_append, List.filterMap_eq_nil_iff.mpr hfront]
  rfl

/-- A slot of a Messages body with these texts: one string, or blocks. -/
def Holds (texts : List String) (slot : Option Value) : Prop :=
  (∃ text, texts = [text] ∧ slot = some (.string text)) ∨
    ∃ blocks, slot = some (.array blocks) ∧ (∀ block ∈ blocks, block.isObject = true) ∧
      blocks.map (fun block => block.strAt? "text") = texts.map some

theorem holds_messagesSystem (r : RoleText) (roles : List RoleText) :
    Holds ((r :: roles).map sentText) (messagesSystem (r :: roles)) := by
  unfold messagesSystem
  rw [List.map_cons]
  cases roles.map sentText with
  | nil => exact Or.inl ⟨_, rfl, rfl⟩
  | cons text more =>
    refine Or.inr ⟨_, rfl, ?_, ?_⟩
    · intro block hmem
      obtain ⟨own, _, rfl⟩ := List.mem_map.mp hmem
      rfl
    · rw [List.map_map]
      rfl

theorem Holds.strip {texts : List String} {body : Value} (h : Holds texts (body.get? "system")) :
    Holds texts ((stripAllCacheControl body).get? "system") := by
  rw [get?_strip "system" body (by decide)]
  rcases h with ⟨text, htexts, hslot⟩ | ⟨blocks, hslot, hobject, htexts⟩
  · refine Or.inl ⟨text, htexts, ?_⟩
    rw [hslot]
    simp [stripAllCacheControl]
  · refine Or.inr ⟨blocks.map stripAllCacheControl, ?_, ?_, ?_⟩
    · rw [hslot]
      simp [stripAllCacheControl, MessagesMarkers.strip_items]
    · intro block hmem
      obtain ⟨own, hown, rfl⟩ := List.mem_map.mp hmem
      exact (MessagesMarkers.isObject_strip own).trans (hobject own hown)
    · rw [List.map_map, ← htexts]
      exact List.map_congr_left fun block _ => strAt?_strip "text" block (by decide)

theorem isObject_tag {ttl : Option String} {block : Value} (h : block.isObject = true) :
    (tag ttl block).isObject = true := by
  cases block with
  | object fields => rfl
  | _ => cases h

theorem Holds.tagged {ttl : Option String} {texts : List String} {blocks blocks' : List Value}
    (hchanged : MessagesMarkers.OneChanged (tag ttl) blocks blocks')
    (hobject : ∀ block ∈ blocks, block.isObject = true)
    (htexts : blocks.map (fun block => block.strAt? "text") = texts.map some) :
    Holds texts (some (.array blocks')) := by
  refine Or.inr ⟨blocks', rfl, ?_, ?_⟩
  · exact hchanged.forall (P := fun block => block.isObject = true) hobject
      fun block hmem => isObject_tag (hobject block hmem)
  · rw [← htexts]
    refine hchanged.map fun block hmem => ?_
    unfold Value.strAt?
    rw [MessagesMarkers.get?_tag (hobject block hmem) (by decide)]

theorem Holds.tagSystemSlot {ttl : Option String} {texts : List String} {body : Value}
    (first : Bool) (h : Holds texts (body.get? "system")) :
    Holds texts ((tagSystemSlot body ttl first).2.get? "system") := by
  have hnew : ∀ {value : Value}, body.get? "system" = some value → ∀ x,
      (body.insert "system" x).get? "system" = some x := fun hslot x =>
    Value.get?_insert_self _ _ (MessagesMarkers.isObject_of_get? hslot)
  unfold MessagesCache.tagSystemSlot
  rcases h with ⟨text, htexts, hslot⟩ | ⟨blocks, hslot, hobject, htexts⟩
  · rw [hslot]
    dsimp only
    rw [hnew hslot]
    refine Or.inr ⟨_, rfl, fun block hmem => ?_, ?_⟩
    · obtain rfl := List.mem_singleton.mp hmem
      rfl
    · rw [htexts]
      rfl
  · rw [hslot]
    cases blocks with
    | nil =>
      dsimp only
      exact Or.inr ⟨[], hslot, hobject, htexts⟩
    | cons block rest =>
      dsimp only
      rw [hnew hslot]
      cases first
      · exact Holds.tagged (MessagesMarkers.oneChanged_last _ _) hobject htexts
      · exact Holds.tagged (MessagesMarkers.oneChanged_first _ _) hobject htexts

theorem get?_system_tagLastTool (ttl : Option String) (body : Value) :
    (tagLastTool body ttl).get? "system" = body.get? "system" := by
  unfold tagLastTool
  split
  · exact Value.get?_insert_of_ne _ _ (by decide)
  · rfl

theorem get?_system_tagFirstUserText (ttl : Option String) (body : Value) :
    (tagFirstUserText body ttl).get? "system" = body.get? "system" := by
  unfold tagFirstUserText
  split
  · exact Value.get?_insert_of_ne _ _ (by decide)
  · rfl

theorem Holds.preferred {ttl : Option String} {texts : List String} {body : Value}
    (h : Holds texts (body.get? "system")) :
    Holds texts ((applyPreferredCacheBreakpoints body ttl).get? "system") := by
  have htool : Holds texts ((tagLastTool body ttl).get? "system") := by
    rwa [get?_system_tagLastTool]
  unfold applyPreferredCacheBreakpoints
  dsimp only
  split
  · split
    · split
      · exact htool.tagSystemSlot true
      · rw [get?_system_tagFirstUserText]
        exact htool.tagSystemSlot true
    · rw [get?_system_tagFirstUserText]
      exact h.tagSystemSlot true
  · rw [get?_system_tagFirstUserText]
    split
    · exact h.tagSystemSlot false
    · exact (h.tagSystemSlot false).tagSystemSlot true

theorem Holds.cached {texts : List String} {body : Value} (cache : IrCache) (estimated : ℕ)
    (h : Holds texts (body.get? "system")) :
    Holds texts ((applyCacheBreakpoints body cache estimated []).1.get? "system") := by
  have hplaced : ∀ ttl, Holds texts ((enforceCacheControlLimit (applyPreferredCacheBreakpoints
      (stripAllCacheControl body) ttl) ttl).get? "system") := by
    intro ttl
    unfold enforceCacheControlLimit
    split
    · exact h.strip.preferred
    · exact h.strip.preferred.strip.preferred
  unfold applyCacheBreakpoints
  split
  · exact h
  · split
    · exact h
    · dsimp only
      split <;> exact hplaced _

theorem Holds.begins (hpre : pre ≠ "") {text : String} (hstart : startsWith text pre = true)
    {rest : List String} {body : Value} (h : Holds (text :: rest) (body.get? "system")) :
    Leading .messages pre body := by
  rcases h with ⟨own, htexts, hslot⟩ | ⟨blocks, hslot, hobject, htexts⟩
  · obtain ⟨rfl, -⟩ := List.cons.inj htexts
    refine ⟨⟨text, ?_, hstart⟩, ⟨text, none, []⟩, ?_, hstart⟩
    · rw [slotText, hslot]
      rfl
    · rw [decodeRoles, hslot]
      rfl
  · cases blocks with
    | nil => cases htexts
    | cons block more =>
      obtain ⟨hblock, -⟩ := List.cons.inj htexts
      have hblock : block.strAt? "text" = some text := hblock
      have hshown : shownItem (block.strAt? "text") = some (systemItem text) := by
        rw [hblock]
        exact shownItem_some (ne_empty_of_startsWith hpre hstart)
      refine ⟨⟨text, ?_, hstart⟩, ⟨text, none, []⟩, ?_, hstart⟩
      · rw [slotText, hslot]
        change (List.filterMap (fun block => block.strAt? "text") (block :: more)).head? = some text
        rw [List.filterMap_cons, hblock]
        rfl
      · rw [decodeRoles, hslot]
        change leading ((List.filterMap (fun block => shownItem (block.strAt? "text"))
          (block :: more)).map .role) = some ⟨text, none, []⟩
        rw [List.filterMap_cons, hshown]
        rfl

theorem roleTexts_split (hpre : pre ≠ "") (hstart : startsWith r.text pre = true)
    (hplain : r.contentParts = []) (roles : List RoleText) :
    roleTexts (r :: roles) = r.text :: roleTexts roles := by
  have hne := ne_empty_of_startsWith hpre hstart
  simp [roleTexts, sentText_plain hplain, hne]

theorem gemini_slot (hpre : pre ≠ "") (hstart : startsWith r.text pre = true)
    (hplain : r.contentParts = []) (roles : List RoleText) :
    geminiSystemInstruction (r :: roles) =
      some (.object [("parts", .array ((r.text :: roleTexts roles).map plainBlock))]) := by
  rw [geminiSystemInstruction, roleTexts_split hpre hstart hplain roles]
  rfl

theorem gemini_leading (hpre : pre ≠ "") (hstart : startsWith r.text pre = true)
    (hplain : r.contentParts = []) {roles : List RoleText} {body : Value}
    (h : body.get? "systemInstruction" = geminiSystemInstruction (r :: roles)) :
    Leading .gemini pre body := by
  have htexts := roleTexts_split hpre hstart hplain roles
  have hslot := gemini_slot hpre hstart hplain roles
  constructor
  · refine ⟨r.text, ?_, hstart⟩
    rw [slotText, h, readTexts_gemini, htexts]
    rfl
  · have hjoined : startsWith (join (r.text :: roleTexts roles)) pre = true := by
      refine startsWith_trans hstart ?_
      rw [join, String.toList_append]
      exact List.prefix_append _ _
    have hread : ((r.text :: roleTexts roles).map plainBlock).filterMap (fun part => part.strAt? "text") =
        r.text :: roleTexts roles := readTexts_plain (r.text :: roleTexts roles)
    have hdecoded : decodeInstruction (geminiSystemInstruction (r :: roles)) =
        [systemItem (join (r.text :: roleTexts roles))] := by
      rw [hslot]
      change (shownItem (some (join (((r.text :: roleTexts roles).map plainBlock).filterMap
        fun part => part.strAt? "text")))).toList = _
      rw [hread, shownItem_some (ne_empty_of_startsWith hpre hjoined)]
      rfl
    refine ⟨⟨join (r.text :: roleTexts roles), none, []⟩, ?_, hjoined⟩
    rw [decodeRoles, h, hdecoded, leading_systemItem]

theorem converseBlock_silent {item : Item} {block : Value} (hrole : roleOf item = none)
    (h : converseBlock item = some block) : block.strAt? "text" = none := by
  cases item with
  | role item => cases hrole
  | systemCache raw =>
    obtain rfl := Option.some.inj h
    rfl
  | systemGuard raw =>
    obtain rfl := Option.some.inj h
    rfl
  | _ => cases h

theorem converse_slot (hpre : pre ≠ "") (hstart : startsWith r.text pre = true)
    (hplain : r.contentParts = []) (front after : List Item) :
    converseSlot (front ++ .role (.system r) :: after) = some (.array
      (front.filterMap converseBlock ++ plainBlock r.text :: after.filterMap converseBlock)) := by
  have hne := ne_empty_of_startsWith hpre hstart
  have hblock : converseBlock (.role (.system r)) = some (plainBlock r.text) := by
    change (if (sentText r).isEmpty then none else some (plainBlock (sentText r))) = _
    rw [sentText_plain hplain, if_neg (by simpa using hne)]
  unfold converseSlot
  rw [List.filterMap_append, List.filterMap_cons_some hblock]
  cases front.filterMap converseBlock <;> rfl

theorem converse_leading (hpre : pre ≠ "") (hstart : startsWith r.text pre = true)
    (hplain : r.contentParts = []) (hfront : ∀ item ∈ front, roleOf item = none) {body : Value}
    (h : body.get? "system" = converseSlot (front ++ .role (.system r) :: after)) :
    Leading .converse pre body := by
  have hne := ne_empty_of_startsWith hpre hstart
  have hslot := converse_slot hpre hstart hplain front after
  have hsilent : ∀ block ∈ front.filterMap converseBlock, block.strAt? "text" = none := by
    intro block hmem
    obtain ⟨item, hitem, hblock⟩ := List.mem_filterMap.mp hmem
    exact converseBlock_silent (hfront item hitem) hblock
  constructor
  · refine ⟨r.text, ?_, hstart⟩
    rw [slotText, h, hslot]
    change (List.filterMap _ _).head? = _
    rw [List.filterMap_append, List.filterMap_eq_nil_iff.mpr hsilent]
    rfl
  · have hshown : ∀ block ∈ front.filterMap converseBlock,
        shownItem (block.strAt? "text") = none := fun block hmem => by
      rw [hsilent block hmem]
      rfl
    have hdecoded : ∃ rest, decodeConverseSystem (converseSlot (front ++ .role (.system r) :: after)) =
        systemItem r.text :: rest := by
      rw [hslot]
      change ∃ rest, List.filterMap _ _ = _
      rw [List.filterMap_append, List.filterMap_eq_nil_iff.mpr hshown]
      have hfirst : shownItem ((plainBlock r.text).strAt? "text") = some (systemItem r.text) :=
        shownItem_some hne
      exact ⟨_, show List.filterMap (fun block => shownItem (block.strAt? "text"))
        (plainBlock r.text :: after.filterMap converseBlock) = _ from List.filterMap_cons_some hfirst⟩
    obtain ⟨rest, hrest⟩ := hdecoded
    refine ⟨⟨r.text, none, []⟩, ?_, hstart⟩
    rw [decodeRoles, h, hrest, leading_systemItem]

theorem prefix_joinLines (text : String) (rest : List String) :
    text.toList <+: (joinLines (text :: rest)).toList := by
  cases rest with
  | nil => exact List.prefix_refl _
  | cons next more =>
    rw [joinLines, String.toList_append, String.toList_append, List.append_assoc]
    · exact List.prefix_append _ _
    · exact List.cons_ne_nil _ _

theorem responses_slot (hinline : inInput r = false) (roles : List RoleText) :
    joinedInstructions (r :: roles) = some (joinLines (r.text :: instructions roles)) := by
  have hinstructions : instructions (r :: roles) = r.text :: instructions roles := by
    simp [instructions, hinline]
  rw [joinedInstructions, hinstructions]

theorem responses_leading (hpre : pre ≠ "") (hstart : startsWith r.text pre = true)
    (hinline : inInput r = false) {roles : List RoleText} {body : Value}
    (h : body.get? "instructions" = (joinedInstructions (r :: roles)).map .string) :
    Leading .responses pre body := by
  have hslot := responses_slot hinline roles
  have hjoined := startsWith_trans hstart (prefix_joinLines r.text (instructions roles))
  have htext : body.strAt? "instructions" = some (joinLines (r.text :: instructions roles)) := by
    rw [Value.strAt?, h, hslot]
    rfl
  refine ⟨⟨_, htext, hjoined⟩, ⟨joinLines (r.text :: instructions roles), none, []⟩, ?_, hjoined⟩
  have hitem : instructionItem body = [systemItem (joinLines (r.text :: instructions roles))] := by
    have hne := ne_empty_of_startsWith hpre hjoined
    rw [instructionItem, htext]
    simp [Option.filter, hne, systemItem]
  rw [decodeRoles, decode, hitem]
  rfl

section Chat

variable {parts : List IrPart → Value} {turns : ℕ → List Value}

theorem encodeMessages_append (idx : ℕ) (front back : List Item) :
    encodeMessages parts turns idx (front ++ back) =
      encodeMessages parts turns idx front ++ encodeMessages parts turns (idx + front.length) back := by
  induction front generalizing idx with
  | nil => rfl
  | cons item rest ih =>
    rw [List.cons_append, encodeMessages, encodeMessages, ih, List.append_assoc, List.length_cons,
      Nat.add_assoc, Nat.add_comm 1]

theorem encodeMessages_front (hturns : ∀ idx, ∀ m ∈ turns idx, isSystemMessage m = false)
    (hfront : ∀ item ∈ front, systemRole item = none)
    (hpassed : ∀ item ∈ front, ∀ raw, rawOf item = some raw → isSystemMessage raw = false) (idx : ℕ) :
    ∀ m ∈ encodeMessages parts turns idx front, isSystemMessage m = false := by
  induction front generalizing idx with
  | nil =>
    intro m hmem
    cases hmem
  | cons item rest ih =>
    intro m hmem
    rcases List.mem_append.mp hmem with hmem | hmem
    · have hrole := hfront item List.mem_cons_self
      have hraw := hpassed item List.mem_cons_self
      cases item with
      | role item =>
        cases item with
        | system r => cases hrole
        | developer r =>
          obtain rfl := List.mem_singleton.mp hmem
          rfl
      | hosted kind raw =>
        change m ∈ (if chatStringRole raw then [raw] else []) at hmem
        split at hmem
        · obtain rfl := List.mem_singleton.mp hmem
          exact hraw _ rfl
        · cases hmem
      | unknown typeName raw =>
        change m ∈ (if !toolSetChange typeName && chatStringRole raw then [raw] else []) at hmem
        split at hmem
        · obtain rfl := List.mem_singleton.mp hmem
          exact hraw _ rfl
        · cases hmem
      | turn => exact hturns idx m hmem
      | _ => cases hmem
    · exact ih (fun other hother => hfront other (List.mem_cons_of_mem _ hother))
        (fun other hother => hpassed other (List.mem_cons_of_mem _ hother)) (idx + 1) m hmem

theorem decodeMessage_other {source : SourceWire} {m : Value} {item : IrItem}
    (hm : isSystemMessage m = false) (h : decodeMessage source m = some item) :
    systemRole (.role item) = none := by
  unfold decodeMessage at h
  dsimp only at h
  split at h
  · rename_i hrole
    have hsystem : m.strAt? "role" = some "system" := by
      cases hread : m.strAt? "role" with
      | none =>
        rw [hread] at hrole
        exact absurd hrole (by decide)
      | some role =>
        rw [hread] at hrole
        exact congrArg some hrole
    rw [isSystemMessage, hsystem] at hm
    exact absurd hm (by decide)
  · obtain rfl := Option.some.inj h
    rfl
  · cases h

theorem readTexts_roleText (text : String) (mode : Option String) :
    readTexts (some (roleTextContent text mode)) = [text] := by
  unfold roleTextContent
  split <;> rfl

theorem partsText_roleText (text : String) (mode : Option String) :
    partsText .chatCompletions (decodeContent .chatCompletions (some (roleTextContent text mode))) =
      text ++ "" := by
  unfold roleTextContent
  split <;> rfl

theorem chat_leading (hstart : startsWith r.text pre = true) (hplain : r.contentParts = [])
    {messages rest : List Value} (hmessages : ∀ m ∈ messages, isSystemMessage m = false) {body : Value}
    (h : body.get? "messages" = some (.array (messages ++ chatMessage parts (.system r) :: rest))) :
    Leading .chatCompletions pre body := by
  have hcontent : (chatMessage parts (.system r)).get? "content" =
      some (roleTextContent r.text r.promptCacheBreakpoint) := by
    simp [chatMessage, Value.get?, List.lookup_cons, IrItem.role, hplain]
  have hrole : (chatMessage parts (.system r)).strAt? "role" = some "system" := rfl
  have hsystem : isSystemMessage (chatMessage parts (.system r)) = true := by
    rw [isSystemMessage, hrole]
    rfl
  have hitems : Completion.items (body.get? "messages") =
      messages ++ chatMessage parts (.system r) :: rest := by
    rw [h]
    rfl
  constructor
  · refine ⟨r.text ++ "", ?_, by rwa [String.append_empty]⟩
    have hnone : messages.find? isSystemMessage = none :=
      List.find?_eq_none.mpr fun m hm => by rw [hmessages m hm]; decide
    rw [slotText, hitems, List.find?_append, hnone, Option.none_or, List.find?_cons_of_pos hsystem,
      Option.map_some, hcontent, readTexts_roleText]
    rfl
  · have hdecoded : decodeMessage .chatCompletions (chatMessage parts (.system r)) =
        some (.system (roleText .chatCompletions (decodeContent .chatCompletions
          (some (roleTextContent r.text r.promptCacheBreakpoint))))) := by
      rw [decodeMessage, hrole, hcontent]
      rfl
    refine ⟨roleText .chatCompletions (decodeContent .chatCompletions
      (some (roleTextContent r.text r.promptCacheBreakpoint))), ?_, ?_⟩
    · rw [decodeRoles, decode, hitems, List.filterMap_append, List.map_append, leading_append,
        List.filterMap_cons_some hdecoded]
      · rfl
      · intro item hmem
        obtain ⟨own, hown, rfl⟩ := List.mem_map.mp hmem
        obtain ⟨m, hm, hread⟩ := List.mem_filterMap.mp hown
        exact decodeMessage_other (hmessages m hm) hread
    · rw [roleText]
      dsimp only
      rw [partsText_roleText, String.append_empty]
      exact hstart

end Chat

theorem get?_writeFields {key : String} (fields : List (String × Value)) (body : Value)
    (h : key ∉ fields.map Prod.fst) : (writeFields body fields).get? key = body.get? key := by
  unfold writeFields
  induction fields generalizing body with
  | nil => rfl
  | cons f rest ih =>
    rw [List.map_cons, List.mem_cons, not_or] at h
    rw [List.foldl_cons, ih _ h.2, Value.get?_insert_of_ne _ _ h.1]

theorem roleOf_before {items : List Item} (h : ∀ r, .role (.developer r) ∉ before items) :
    ∀ item ∈ before items, roleOf item = none := by
  intro item hmem
  have hsystem := systemRole_before item hmem
  cases item with
  | role item =>
    cases item with
    | system r => cases hsystem
    | developer r => exact absurd hmem (h r)
  | _ => rfl

theorem carrier_plain {wire : Wire} {items : List Item} (h : Leads wire items) :
    (carrier pre items).contentParts = [] := by
  unfold carrier
  split
  · rename_i r hleading
    have hplain : r.contentParts = [] := h.plain r hleading
    exact hplain
  · rfl

theorem carrier_inline {items : List Item} (h : Leads .responses items) :
    inInput (carrier pre items) = false := by
  unfold carrier
  split
  · rename_i r hleading
    have hinline : inInput r = false := h.inline rfl r hleading
    exact hinline
  · rfl

theorem messagesSystem_isSome (r : RoleText) (roles : List RoleText) :
    (messagesSystem (r :: roles)).isSome = true := by
  rw [messagesSystem, List.map_cons]
  cases roles.map sentText <;> rfl

theorem written_slot (other : List (String × Value)) (key : String) {value : Option Value}
    (h : value.isSome = true) :
    (writeFields (.object other) (value.toList.map fun v => (key, v))).get? key = value := by
  obtain ⟨v, rfl⟩ := Option.isSome_iff_exists.mp h
  exact Value.get?_insert_self (v := .object other) key v rfl

section Encoded

variable {parts : List IrPart → Value} {turns : ℕ → List Value} {wire : Wire} {items : List Item}
  {other : List (String × Value)}

theorem slots_leading (hpre : pre ≠ "") (hturns : ∀ idx, ∀ m ∈ turns idx, isSystemMessage m = false)
    (hleads : Leads wire items) (cache : IrCache) (estimated : ℕ) {body : Value}
    (h : body.get? (slotKey wire) = (placeBreakpoints wire cache estimated (writeFields (.object other)
      (slots parts turns wire (applySystemPrefix (some pre) items)))).get? (slotKey wire)) :
    Leading wire pre body := by
  have hstart := startsWith_carrier pre items
  have hplain : (carrier pre items).contentParts = [] := carrier_plain hleads
  obtain ⟨after, hsplit⟩ := apply_split hpre items
  rw [hsplit] at h
  have hroles : wire ≠ .chatCompletions →
      rolesOf (before items ++ .role (.system (carrier pre items)) :: after) =
        carrier pre items :: rolesOf after := fun hwire =>
    rolesOf_split (roleOf_before (hleads.order hwire))
  cases wire with
  | chatCompletions =>
    have hmessages : encodeMessages parts turns 0
        (before items ++ .role (.system (carrier pre items)) :: after) =
          encodeMessages parts turns 0 (before items) ++ chatMessage parts (.system (carrier pre items)) ::
            encodeMessages parts turns (0 + (before items).length + 1) after := by
      rw [encodeMessages_append]
      rfl
    have hslot := h.trans (Value.get?_insert_self (v := .object other) "messages" _ rfl)
    rw [hmessages] at hslot
    exact chat_leading hstart hplain
      (encodeMessages_front hturns systemRole_before (hleads.passed rfl) 0) hslot
  | messages =>
    rw [slots, hroles (by decide)] at h
    have hslot := written_slot other "system"
      (messagesSystem_isSome (carrier pre items) (rolesOf after))
    have hholds := holds_messagesSystem (carrier pre items) (rolesOf after)
    rw [← hslot, List.map_cons, sentText_plain hplain] at hholds
    have hcached := hholds.cached cache estimated
    exact Holds.begins hpre hstart (h ▸ hcached)
  | responses =>
    have hinline : inInput (carrier pre items) = false := carrier_inline hleads
    rw [slots, hroles (by decide), responses_slot hinline] at h
    have hslot : body.get? "instructions" =
        (joinedInstructions (carrier pre items :: rolesOf after)).map .string := by
      rw [responses_slot hinline]
      refine h.trans ?_
      exact Value.get?_insert_self (v := (Value.object other).insert "input" _) "instructions"
        (.string (joinLines ((carrier pre items).text :: instructions (rolesOf after)))) rfl
    exact responses_leading hpre hstart hinline hslot
  | gemini =>
    rw [slots, hroles (by decide)] at h
    exact gemini_leading hpre hstart hplain (h.trans (written_slot other "systemInstruction"
      (by rw [gemini_slot hpre hstart hplain]; rfl)))
  | converse =>
    exact converse_leading hpre hstart hplain (roleOf_before (hleads.order (by decide)))
      (h.trans (written_slot other "system" (by rw [converse_slot hpre hstart hplain]; rfl)))

/-- The prefix comes first in the slot of the encoded body, it is added once only, and to
what is decoded from the body nothing is added. -/
theorem prefix_first_and_once (profile : Profile) (hpre : pre ≠ "")
    (hprofile : profile.systemPromptPrefix = some pre)
    (hturns : ∀ idx, ∀ m ∈ turns idx, isSystemMessage m = false) (hleads : Leads wire items)
    (hextra : slotKey wire ∉ profile.extraBody.map Prod.fst)
    (hforbidden : slotKey wire ∉ profile.forbiddenBodyFields) (cache : IrCache) (estimated : ℕ)
    (body : Value)
    (h : encode parts turns wire profile cache estimated other items = .ok body) :
    (∃ text, slotText wire body = some text ∧ startsWith text pre = true) ∧
      (∀ r, leading items = some r → startsWith r.text pre = true →
        applySystemPrefix profile.systemPromptPrefix items = items) ∧
      applySystemPrefix profile.systemPromptPrefix (decodeRoles wire body) = decodeRoles wire body := by
  rw [encode, hprofile] at h
  have hget := get?_applyForbidden h (slotKey wire)
  rw [if_neg hforbidden, get?_writeFields _ _ hextra] at hget
  obtain ⟨htext, r, hr, hstart⟩ := slots_leading hpre hturns hleads cache estimated hget
  rw [hprofile]
  exact ⟨htext, fun own hown hbegins => apply_of_leading hown hbegins, apply_of_leading hr hstart⟩

end Encoded

/-- A profile with a prefix, and one that writes the slot itself. -/
def polite (extraBody : List (String × Value)) : Profile where
  systemPromptPrefix := some "Be polite."
  extraBody := extraBody

def noParts (_ : List IrPart) : Value := .array []

def userTurn (_ : ℕ) : List Value := [.object [("role", "user"), ("content", "hello")]]

def briefRequest : List Item := [.turn, .role (.system ⟨"Be brief.", none, []⟩)]

theorem leads_briefRequest (wire : Wire) : Leads wire briefRequest where
  plain := fun r h => by
    obtain rfl := Option.some.inj h
    rfl
  order := fun _ r hmem => by cases List.mem_singleton.mp hmem
  inline := fun _ r h => by
    obtain rfl := Option.some.inj h
    rfl
  passed := fun _ item hmem raw hraw => by
    obtain rfl := List.mem_singleton.mp hmem
    cases hraw

theorem prefix_first_and_once_brief : ∃ body text, encode noParts userTurn .chatCompletions (polite []) {} 0 []
      briefRequest = .ok body ∧ slotText .chatCompletions body = some text ∧
        startsWith text "Be polite." = true := by
  have hturns : ∀ idx, ∀ m ∈ userTurn idx, isSystemMessage m = false := by
    intro idx m hmem
    obtain rfl := List.mem_singleton.mp hmem
    rfl
  have hencoded : ∃ body, encode noParts userTurn .chatCompletions (polite []) {} 0 [] briefRequest = .ok body :=
    ⟨_, rfl⟩
  obtain ⟨body, hbody⟩ := hencoded
  obtain ⟨⟨text, htext, hstart⟩, _⟩ := prefix_first_and_once (polite []) (by decide) rfl hturns
    (leads_briefRequest .chatCompletions) (by decide) (by decide) {} 0 body hbody
  exact ⟨body, text, hbody, htext, hstart⟩

/-- The fields of the profile are written last. -/
theorem extra_body_replaces_prefix : ¬ ∀ (parts : List IrPart → Value) (turns : ℕ → List Value)
    (wire : Wire) (profile : Profile) (pre : String) (other : List (String × Value))
    (cache : IrCache) (estimated : ℕ) (items : List Item) (body : Value), pre ≠ "" → profile.systemPromptPrefix = some pre →
      encode parts turns wire profile cache estimated other items = .ok body →
        ∃ text, slotText wire body = some text ∧ startsWith text pre = true := by
  intro hall
  obtain ⟨text, htext, hstart⟩ := hall noParts userTurn .messages (polite [("system", "Be bold.")])
    "Be polite." [] {} 0 briefRequest _ (by decide) rfl rfl
  obtain rfl : "Be bold." = text := Option.some.inj htext
  exact absurd hstart (by decide)

end Wiremux.SystemPrefix
