import Wiremux.ConverseTurns
import Wiremux.GeminiItems

set_option autoImplicit false

/-!
# The turns of Gemini and Converse bodies

What holds of the turns while they are written, read off the bodies that are sent.
-/
namespace Wiremux.RequestTurns
open JsonValue DocumentNames TurnLists
open MessagesItems (IrItem)
open ConverseTurns (Named resultBlocks)
open ConverseItems (has isMediaBlock)

def listAt (key : String) (turn : Value) : List Value := Completion.items (turn.get? key)

def hasRole (role : String) (turn : Value) : Prop := turn.strAt? "role" = some role

/-- Neighbours have different roles, and no content is without a part. -/
structure GeminiStructured (contents : List Value) : Prop where
  alternating : contents.IsChain fun first second => first.strAt? "role" ≠ second.strAt? "role"
  nonempty : ∀ content ∈ contents, listAt "parts" content ≠ []

/-- A message with the role system adds or removes a tool; it stands apart. -/
structure ConverseStructured (messages : List Value) : Prop where
  alternating : messages.IsChain fun first second =>
    first.strAt? "role" = second.strAt? "role" → hasRole "system" first
  nonempty : ∀ message ∈ messages, listAt "content" message ≠ []
  media : ∀ message ∈ messages, hasRole "assistant" message →
    ∀ block ∈ listAt "content" message, block.get? "document" = none ∧ block.get? "image" = none
  text : ∀ message ∈ messages, hasRole "user" message →
    (∃ block ∈ listAt "content" message, (block.get? "document").isSome = true) →
    ∃ block ∈ listAt "content" message, (block.get? "text").isSome = true
  names : ∀ message ∈ messages, ¬ hasRole "system" message →
    ∀ block ∈ listAt "content" message, Named block ∧ ∀ inner ∈ resultBlocks block, Named inner

theorem gemini_role_inj {first second : GeminiItems.Role} (h : first.name = second.name) :
    first = second := by
  cases first <;> cases second <;> first | rfl | exact absurd h (by decide)

theorem converse_role_inj {first second : ConverseItems.Role} (h : first.name = second.name) :
    first = second := by
  cases first <;> cases second <;> first | rfl | exact absurd h (by decide)

theorem role_of_hasRole {message : ConverseItems.Message} {role : ConverseItems.Role}
    (h : hasRole role.name (ConverseItems.messageJson message)) : message.role = role :=
  converse_role_inj (Option.some.inj h)

theorem gemini_structured {contents : List GeminiItems.Content} (h : GeminiItems.Structured contents) :
    GeminiStructured (contents.map GeminiItems.contentJson) where
  alternating := by
    refine List.isChain_map_of_isChain GeminiItems.contentJson (fun first second hrole heq => ?_)
      h.alternating
    exact hrole (gemini_role_inj (Option.some.inj heq))
  nonempty := by
    intro content hmem
    obtain ⟨own, hown, rfl⟩ := List.mem_map.mp hmem
    exact h.nonempty own hown

theorem converse_structured {messages : List ConverseItems.Message}
    (h : ConverseTurns.Structured messages) :
    ConverseStructured (messages.map ConverseItems.messageJson) where
  alternating := by
    refine List.isChain_map_of_isChain ConverseItems.messageJson (fun first second hrole heq => ?_)
      h.alternating
    have hsystem := hrole (converse_role_inj (Option.some.inj heq))
    exact congrArg (fun role => some (ConverseItems.Role.name role)) hsystem
  nonempty := by
    intro message hmem
    obtain ⟨own, hown, rfl⟩ := List.mem_map.mp hmem
    exact (h.accepted own hown).nonempty
  media := by
    intro message hmem hrole block hblock
    obtain ⟨own, hown, rfl⟩ := List.mem_map.mp hmem
    have hmedia := (h.accepted own hown).media (role_of_hasRole hrole) block hblock
    simpa [isMediaBlock, has] using hmedia
  text := by
    intro message hmem hrole hdocument
    obtain ⟨own, hown, rfl⟩ := List.mem_map.mp hmem
    have htext := (h.accepted own hown).text (role_of_hasRole hrole)
      (List.any_eq_true.mpr hdocument)
    exact List.any_eq_true.mp htext
  names := by
    intro message hmem hrole
    obtain ⟨own, hown, rfl⟩ := List.mem_map.mp hmem
    refine (h.accepted own hown).names fun heq => hrole ?_
    exact congrArg (fun role => some (ConverseItems.Role.name role)) heq

/-- `contents` of a Gemini body. -/
def geminiContents (sj : SerdeJson) (items : List IrItem) : List Value :=
  (GeminiItems.encodeContents sj items).contents.map GeminiItems.contentJson

/-- The turns of every encoded request are structured, and the names of the documents
are names that Bedrock accepts. -/
theorem turns_structured (sj : SerdeJson) (items : List IrItem) :
    GeminiStructured (geminiContents sj items) ∧
      ∃ messages, (ConverseItems.encodeItems sj items).2.1 = .array messages ∧
        ConverseStructured messages :=
  ⟨gemini_structured (GeminiItems.structured_contents items),
    _, rfl, converse_structured (ConverseTurns.structured_turns items)⟩

end Wiremux.RequestTurns
