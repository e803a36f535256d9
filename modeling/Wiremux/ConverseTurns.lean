import Wiremux.ConverseItems

set_option autoImplicit false

/-!
# What Bedrock asks of the turns

Every message that is written is accepted: by its role, its media and the names
of its documents, and neighbours have different roles.
-/
namespace Wiremux.ConverseTurns
open JsonValue RequestParts DocumentNames ConverseParts ConverseItems TurnLists
open MessagesItems (IrItem)

def Named (block : Value) : Prop :=
  ∀ document, block.get? "document" = some document →
    ∃ name, document.strAt? "name" = some name ∧ ValidName name

/-- The blocks inside a tool result. -/
def resultBlocks (block : Value) : List Value :=
  Completion.items ((block.get? "toolResult").bind fun result => result.get? "content")

/-- What Bedrock asks of a message; one that adds or removes a tool stands apart. -/
structure Accepted (message : Message) : Prop where
  nonempty : message.content ≠ []
  media : message.role = .assistant → ∀ block ∈ message.content, isMediaBlock block = false
  text : message.role = .user → message.content.any (has "document") = true →
    message.content.any (has "text") = true
  names : message.role ≠ .system → ∀ block ∈ message.content, Named block ∧
    ∀ inner ∈ resultBlocks block, Named inner

/-- A block of a part: its document is named, and it is no tool result. -/
structure PartBlock (b : Value) : Prop where
  named : Named b
  plain : b.get? "toolResult" = none

theorem get?_block (key other : String) (value : Value) :
    (block key value).get? other = if other = key then some value else none := by
  change List.lookup other [(key, value)] = _
  by_cases h : other = key
  · subst h
    simp
  · rw [List.lookup_cons, beq_false_of_ne h, if_neg h]
    rfl

theorem partBlock_of_key {key : String} (value : Value) (hdocument : key ≠ "document")
    (hresult : key ≠ "toolResult") : PartBlock (block key value) where
  named := by
    intro document h
    rw [get?_block, if_neg (Ne.symm hdocument)] at h
    cases h
  plain := by rw [get?_block, if_neg (Ne.symm hresult)]

theorem partBlock_document (format : String) (name : Option String) (source : Value)
    (citationsEnabled : Option Bool) (context : Option String) :
    PartBlock (documentBlock format (converseDocumentName name).1 source citationsEnabled context) where
  named := by
    intro document h
    unfold documentBlock at h
    rw [get?_block, if_pos rfl] at h
    obtain rfl := Option.some.inj h
    refine ⟨(converseDocumentName name).1, ?_, validName_written name⟩
    unfold Value.strAt?
    rw [Value.get?_insertSome_of_ne _ _ (by decide), Value.get?_insertSome_of_ne _ _ (by decide)]
    rfl
  plain := by
    unfold documentBlock
    rw [get?_block, if_neg (by decide)]

theorem imageBytes_block {mediaType data : String} {b : Value}
    (h : (encodeImageBytes mediaType data).1 = some b) : PartBlock b := by
  unfold encodeImageBytes at h
  split at h
  · cases h
  · split at h
    · cases h
    · obtain rfl := Option.some.inj h
      exact partBlock_of_key _ (by decide) (by decide)

theorem imageUrl_block {url : String} {bucketOwner : Option String} {b : Value}
    (h : (encodeImageUrl url bucketOwner).1 = some b) : PartBlock b := by
  unfold encodeImageUrl at h
  split at h
  · cases h
  · obtain rfl := Option.some.inj h
    exact partBlock_of_key _ (by decide) (by decide)

theorem audio_block {data format : String} {b : Value} (h : (encodeAudio data format).1 = some b) :
    PartBlock b := by
  unfold encodeAudio at h
  split at h
  · cases h
  · split at h
    · cases h
    · obtain rfl := Option.some.inj h
      exact partBlock_of_key _ (by decide) (by decide)

theorem mediaDocument_block {source : IrDocumentSource} {mediaType : String} {name : Option String}
    {citationsEnabled : Option Bool} {context : Option String} {b : Value}
    (h : (encodeMediaDocument source mediaType name citationsEnabled context).1 = some b) :
    PartBlock b := by
  unfold encodeMediaDocument at h
  split at h
  · cases h
  · cases hformat : converseDocumentFormat mediaType with
    | none =>
      rw [hformat] at h
      cases h
    | some format =>
      rw [hformat] at h
      cases hsource : documentSource source with
      | none =>
        rw [hsource] at h
        cases h
      | some written =>
        rw [hsource] at h
        obtain rfl := Option.some.inj h
        exact partBlock_document _ _ _ _ _

theorem document_block {source : IrDocumentSource} {mediaType : String} {name : Option String}
    {citationsEnabled : Option Bool} {context : Option String} {b : Value}
    (h : (encodeDocument source mediaType name citationsEnabled context).1 = some b) : PartBlock b := by
  cases source with
  | fileId id => cases h
  | text data =>
    unfold encodeDocument at h
    dsimp only at h
    split at h
    · cases h
    · obtain rfl := Option.some.inj h
      exact partBlock_of_key _ (by decide) (by decide)
  | _ => exact mediaDocument_block h

theorem imageUrlPart_block {url : String} {detail bucketOwner fileId : Option String} {b : Value}
    (h : (encodeImageUrlPart url detail bucketOwner fileId).1 = some b) : PartBlock b := by
  unfold encodeImageUrlPart at h
  split at h
  · cases h
  · dsimp only at h
    split at h
    · exact imageBytes_block h
    · exact imageUrl_block h

theorem plain_block {part : IrPart} {b : Value} (h : (encodePlain part).1 = some b) : PartBlock b := by
  cases part with
  | text text =>
    change (if isBlank text then (none, []) else (some (textBlock text), []) : Option Value × _).1 = _ at h
    split at h
    · cases h
    · obtain rfl := Option.some.inj h
      exact partBlock_of_key _ (by decide) (by decide)
  | thinking text signature =>
    obtain rfl := Option.some.inj h
    exact partBlock_of_key _ (by decide) (by decide)
  | document source mediaType name citationsEnabled context => exact document_block h
  | audio data format => exact audio_block h
  | imageUrl url detail bucketOwner fileId => exact imageUrlPart_block h
  | imageBase64 mediaType data => exact imageBytes_block h
  | _ => cases h

theorem passedKind_block {typeName : String} (raw : Value) (h : passedKinds.contains typeName = true) :
    PartBlock (block typeName raw) := by
  have hmem : typeName ∈ passedKinds := List.contains_iff_mem.mp h
  refine partBlock_of_key _ ?_ ?_
  · rintro rfl
    exact absurd hmem (by decide)
  · rintro rfl
    exact absurd hmem (by decide)

theorem raw_block {typeName : String} {raw b : Value} (h : (encodeRaw typeName raw).1 = some b) :
    PartBlock b := by
  unfold encodeRaw at h
  split at h
  · rename_i hkind
    obtain rfl := Option.some.inj h
    exact passedKind_block raw (Bool.and_eq_true_iff.mp hkind).1
  · split at h
    · obtain rfl := Option.some.inj h
      exact partBlock_of_key _ (by decide) (by decide)
    · split at h
      · exact plain_block h
      · cases h

theorem part_block {part : IrPart} {b : Value} (h : (encodePart part).1 = some b) : PartBlock b := by
  induction part with
  | promptCacheBreakpoint mode inner ih => exact ih h
  | raw typeName raw => exact raw_block h
  | _ => exact plain_block h

theorem resultRaw_block {idx : ℕ} {typeName : String} {raw b : Value}
    (h : (resultRaw idx typeName raw).1 = some b) : PartBlock b := by
  unfold resultRaw at h
  split at h
  · rename_i hkind
    obtain rfl := Option.some.inj h
    have hmem : typeName ∈ ["video", "searchResult"] :=
      List.contains_iff_mem.mp (Bool.and_eq_true_iff.mp hkind).1
    refine partBlock_of_key _ ?_ ?_
    · rintro rfl
      exact absurd hmem (by decide)
    · rintro rfl
      exact absurd hmem (by decide)
  · split at h
    · obtain rfl := Option.some.inj h
      exact partBlock_of_key _ (by decide) (by decide)
    · split at h
      · exact imageBytes_block h
      · cases h

theorem resultMarked_block {part : IrPart} {b : Value} (h : (resultMarked part).1 = some b) :
    PartBlock b := by
  unfold resultMarked at h
  split at h
  · split at h
    · obtain rfl := Option.some.inj h
      exact partBlock_of_key _ (by decide) (by decide)
    · exact part_block h
  · exact part_block h

theorem resultPart_block {idx : ℕ} {part : IrPart} {b : Value} (h : (resultPart idx part).1 = some b) :
    PartBlock b := by
  cases part with
  | text text =>
    change (if text.isEmpty then none else some (textBlock text)) = some b at h
    split at h
    · cases h
    · obtain rfl := Option.some.inj h
      exact partBlock_of_key _ (by decide) (by decide)
  | imageUrl url detail bucketOwner fileId =>
    change (resultImageUrl url detail bucketOwner fileId).1 = some b at h
    unfold resultImageUrl at h
    split at h
    · cases h
    · exact imageUrl_block h
  | imageBase64 mediaType data => exact imageBytes_block h
  | document source mediaType name citationsEnabled context => exact document_block h
  | raw typeName raw => exact resultRaw_block h
  | promptCacheBreakpoint mode inner => exact resultMarked_block h
  | _ => cases h

theorem textBlock_block (text : String) : PartBlock (textBlock text) :=
  partBlock_of_key _ (by decide) (by decide)

theorem writtenBlocks_block {idx : ℕ} {output : String} {parts : List IrPart} :
    ∀ b ∈ writtenBlocks idx output parts, PartBlock b := by
  intro b hmem
  rcases List.mem_append.mp hmem with hmem | hmem
  · split at hmem
    · cases hmem
    · obtain rfl := List.mem_singleton.mp hmem
      exact textBlock_block _
  · obtain ⟨part, _, hpart⟩ := List.mem_filterMap.mp hmem
    exact resultPart_block hpart

theorem resultContent_block {idx : ℕ} {output : String} {parts : List IrPart} :
    ∀ b ∈ (resultContent idx output parts).1, PartBlock b := by
  intro b hmem
  unfold resultContent at hmem
  dsimp only at hmem
  split at hmem
  · obtain rfl := List.mem_singleton.mp hmem
    exact textBlock_block "."
  · exact writtenBlocks_block b hmem

theorem parts_block {parts : List IrPart} : ∀ b ∈ (encodeParts parts).1, PartBlock b := by
  intro b hmem
  obtain ⟨part, _, hpart⟩ := List.mem_filterMap.mp hmem
  exact part_block hpart

theorem PartBlock.names {b : Value} (h : PartBlock b) :
    Named b ∧ ∀ inner ∈ resultBlocks b, Named inner := by
  refine ⟨h.named, fun inner hmem => ?_⟩
  unfold resultBlocks at hmem
  rw [h.plain] at hmem
  cases hmem

theorem any_append_text (blocks : List Value) :
    (blocks ++ [textBlock "See the attached document."]).any (has "text") = true := by
  rw [List.any_append]
  exact Bool.or_true _

theorem accepted_user {blocks : List Value} (hne : blocks ≠ [])
    (hnames : ∀ b ∈ blocks, Named b ∧ ∀ inner ∈ resultBlocks b, Named inner) :
    Accepted ⟨.user, ensureDocumentText blocks⟩ := by
  unfold ensureDocumentText
  split
  · refine ⟨List.append_ne_nil_of_left_ne_nil hne _, fun hrole => Role.noConfusion hrole,
      fun _ _ => any_append_text blocks, fun _ b hmem => ?_⟩
    rcases List.mem_append.mp hmem with hmem | hmem
    · exact hnames b hmem
    · obtain rfl := List.mem_singleton.mp hmem
      exact (textBlock_block _).names
  · rename_i hneeds
    refine ⟨hne, fun hrole => Role.noConfusion hrole, fun _ hdocument => ?_, fun _ => hnames⟩
    unfold needsDocumentText at hneeds
    have hdocument : blocks.any (has "document") = true := hdocument
    rw [hdocument, Bool.true_and] at hneeds
    simpa using hneeds

theorem accepted_assistant {own blocks : List Value} (hne : own ++ blocks ≠ [])
    (hown : own ≠ [] → Accepted ⟨.assistant, own⟩) (hmedia : ∀ b ∈ blocks, isMediaBlock b = false)
    (hnames : ∀ b ∈ blocks, Named b ∧ ∀ inner ∈ resultBlocks b, Named inner) :
    Accepted ⟨.assistant, own ++ blocks⟩ := by
  have hfrom : ∀ b ∈ own, Accepted ⟨.assistant, own⟩ := fun b hmem =>
    hown (List.ne_nil_of_mem hmem)
  refine ⟨hne, fun _ b hmem => ?_, fun hrole => Role.noConfusion hrole, fun hrole b hmem => ?_⟩
  · rcases List.mem_append.mp hmem with hmem | hmem
    · exact (hfrom b hmem).media rfl b hmem
    · exact hmedia b hmem
  · rcases List.mem_append.mp hmem with hmem | hmem
    · exact (hfrom b hmem).names hrole b hmem
    · exact hnames b hmem

theorem toolResult_silent (callId : String) (isError : Bool) (content : List Value) :
    has "document" (toolResult callId isError content) = false := by
  unfold has toolResult
  rw [get?_block, if_neg (by decide)]
  rfl

theorem toolResult_names (callId : String) (isError : Bool) {content : List Value}
    (h : ∀ b ∈ content, PartBlock b) :
    Named (toolResult callId isError content) ∧
      ∀ inner ∈ resultBlocks (toolResult callId isError content), Named inner := by
  constructor
  · intro document hget
    unfold toolResult at hget
    rw [get?_block, if_neg (by decide)] at hget
    cases hget
  · intro inner hmem
    unfold resultBlocks toolResult at hmem
    rw [get?_block, if_pos rfl, Option.bind_some, Value.get?_insertSome_of_ne _ _ (by decide)] at hmem
    exact (h inner hmem).named

theorem accepted_output {own : List Value} {callId : String} {isError : Bool} {content : List Value}
    (hown : own ≠ [] → Accepted ⟨.user, own⟩) (hcontent : ∀ b ∈ content, PartBlock b) :
    Accepted ⟨.user, own ++ [toolResult callId isError content]⟩ := by
  have hfrom : ∀ b ∈ own, Accepted ⟨.user, own⟩ := fun b hmem => hown (List.ne_nil_of_mem hmem)
  refine ⟨List.append_ne_nil_of_right_ne_nil _ (List.cons_ne_nil _ _),
    fun hrole => Role.noConfusion hrole, fun _ hdocument => ?_, fun hrole b hmem => ?_⟩
  · dsimp only at hdocument ⊢
    rw [List.any_append, List.any_cons, toolResult_silent, List.any_nil, Bool.or_false,
      Bool.or_false] at hdocument
    obtain ⟨b, hmem, _⟩ := List.any_eq_true.mp hdocument
    rw [List.any_append, (hfrom b hmem).text rfl hdocument, Bool.true_or]
  · rcases List.mem_append.mp hmem with hmem | hmem
    · exact (hfrom b hmem).names hrole b hmem
    · obtain rfl := List.mem_singleton.mp hmem
      exact toolResult_names callId isError hcontent

/-- What holds of the messages at every round. -/
structure Structured (messages : List Message) : Prop where
  alternating : Alternating (· = Role.system) messages
  accepted : ∀ message ∈ messages, Accepted message

variable {sj : SerdeJson}

theorem structured_user {idx : ℕ} {blocks : List Value} {s : Encoding} (h : Structured s.messages)
    (hblocks : ∀ b ∈ blocks, PartBlock b) : Structured (joinUser idx blocks s).messages := by
  unfold joinUser
  split
  · exact h
  · rename_i hempty
    have hne : blocks ≠ [] := by simpa using hempty
    have hnames := fun b hmem => (hblocks b hmem).names
    refine ⟨joinOrPush_alternating h.alternating, joinOrPush_forall h.accepted
      (accepted_user hne hnames) fun own hown => ?_⟩
    refine accepted_user (List.append_ne_nil_of_right_ne_nil _ hne) fun b hmem => ?_
    rcases List.mem_append.mp hmem with hmem | hmem
    · exact hown.names (fun hrole => Role.noConfusion hrole) b hmem
    · exact hnames b hmem

theorem structured_assistant {blocks : List Value} {s : Encoding} (h : Structured s.messages)
    (hmedia : ∀ b ∈ blocks, isMediaBlock b = false)
    (hnames : ∀ b ∈ blocks, Named b ∧ ∀ inner ∈ resultBlocks b, Named inner) :
    Structured (joinAssistant blocks s).messages := by
  unfold joinAssistant
  split
  · exact h
  · rename_i hempty
    have hne : blocks ≠ [] := by simpa using hempty
    refine ⟨joinOrPush_alternating h.alternating, joinOrPush_forall h.accepted ?_ fun own hown => ?_⟩
    · have hwritten : [] ++ blocks ≠ [] := hne
      exact accepted_assistant hwritten (fun hown => absurd rfl hown) hmedia hnames
    · exact accepted_assistant (List.append_ne_nil_of_right_ne_nil _ hne) (fun _ => hown) hmedia hnames

theorem structured_one {key : String} (value : Value) {s : Encoding} (h : Structured s.messages)
    (hkeys : key ∉ ["document", "image", "toolResult"]) :
    Structured (joinAssistant [block key value] s).messages := by
  have hne : ∀ other ∈ ["document", "image", "toolResult"], other ≠ key := by
    rintro other hmem rfl
    exact hkeys hmem
  have hblock : PartBlock (block key value) :=
    partBlock_of_key value (Ne.symm (hne _ (by decide))) (Ne.symm (hne _ (by decide)))
  refine structured_assistant h (fun b hmem => ?_) fun b hmem => ?_
  · obtain rfl := List.mem_singleton.mp hmem
    unfold isMediaBlock has
    rw [get?_block, get?_block, if_neg (hne _ (by decide)), if_neg (hne _ (by decide))]
    rfl
  · obtain rfl := List.mem_singleton.mp hmem
    exact hblock.names

theorem structured_item (idx : ℕ) (item : IrItem) (s : Encoding) (h : Structured s.messages) :
    Structured (encodeItem sj idx item s).messages := by
  cases item with
  | system r =>
    change Structured (encodeRole idx r s).messages
    unfold encodeRole
    dsimp only
    split <;> exact h
  | developer r =>
    change Structured (encodeRole idx r s).messages
    unfold encodeRole
    dsimp only
    split <;> exact h
  | systemCache raw => exact h
  | systemGuard raw => exact h
  | user parts => exact structured_user (s := s.note (encodeParts parts).2) h parts_block
  | assistant parts phase =>
    refine structured_user (structured_assistant h ?_ ?_) ?_
    · intro b hmem
      simpa using (List.mem_filter.mp hmem).2
    · intro b hmem
      exact (parts_block b (List.mem_filter.mp hmem).1).names
    · intro b hmem
      exact parts_block b (List.mem_filter.mp hmem).1
  | functionCall callId name arguments signature =>
    exact structured_one _ (s := { s with report := _ }) h (by decide)
  | customToolCall callId name input =>
    exact structured_one _ (s := { s with report := _ }) h (by decide)
  | functionOutput callId output parts isError =>
    refine ⟨joinOrPush_alternating h.alternating, joinOrPush_forall h.accepted ?_ fun own hown => ?_⟩
    · exact accepted_output (fun hown => absurd rfl hown) resultContent_block
    · exact accepted_output (fun _ => hown) resultContent_block
  | reasoning encrypted summary raw =>
    cases summary with
    | none => exact h
    | some text => exact structured_one _ h (by decide)
  | hostedToolCall kind raw => exact h
  | unknown typeName raw =>
    change Structured (if (typeName = "toolAddition" ∨ typeName = "toolRemoval") ∧ raw.isObject = true then
      { s with messages := s.messages ++ [⟨.system, [raw]⟩] } else s.note (noSlot typeName)).messages
    split
    · refine ⟨alternating_push h.alternating fun last _ hrole => hrole, fun message hmem => ?_⟩
      rcases List.mem_append.mp hmem with hmem | hmem
      · exact h.accepted message hmem
      · obtain rfl := List.mem_singleton.mp hmem
        exact ⟨List.cons_ne_nil _ _, fun hrole => Role.noConfusion hrole,
          fun hrole => Role.noConfusion hrole, fun hrole => absurd rfl hrole⟩
    · exact h

theorem structured_turns (items : List IrItem) : Structured (encodeTurns sj items).messages :=
  encodeFrom_keeps structured_item items 0 _
    ⟨List.isChain_nil, fun message hmem => by cases hmem⟩

end Wiremux.ConverseTurns
