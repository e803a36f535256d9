import Mathlib
import Wiremux.MessagesItems
import Wiremux.ToolPreparation

set_option autoImplicit false

/-!
# The estimate for the cache floor

`cache_floor_tokens` counts the text and the payload of a request without encoding
it. It is compared with the blocks that the encoder writes.
-/
namespace Wiremux.CacheFloor
open JsonValue Losses RequestParts MessagesParts MessagesItems ToolPreparation

def messagesRemoteSourceChars : ℕ := 4096

def len (text : String) : ℕ := text.utf8ByteSize

def optLen (text : Option String) : ℕ := (text.map len).getD 0

def remoteLen (handle : String) : ℕ := max (len handle) messagesRemoteSourceChars

def trimmedNonemptyLen (value : Option String) : ℕ := optLen (trimmed value)

def sourceChars : IrDocumentSource → ℕ
  | .base64 data | .text data => len data
  | .url data | .fileId data | .s3 data _ => remoteLen data

def documentWrittenChars (source : IrDocumentSource) (name context : Option String) : ℕ :=
  sourceChars source + trimmedNonemptyLen name + trimmedNonemptyLen context

def hintedInlinePromptChars (inline : Value) : ℕ :=
  let media := (inline.strAt? "mimeType").getD ""
  let data := (inline.strAt? "data").getD ""
  if data.isEmpty || isAudioMediaType media then 0 else len data

def hintedPdfUriChars (raw : Value) : Option ℕ :=
  (raw.get? "fileData").bind fun file =>
    let media := (file.strAt? "mimeType").getD ""
    let uri := (file.strAt? "fileUri").getD ""
    if isPdfMediaType media && !uri.isEmpty then some (remoteLen uri) else none

def inlineImagePromptChars (raw : Value) : Option ℕ :=
  (raw.get? "inlineData").bind fun inline =>
    (inline.strAt? "mimeType").bind fun mime =>
      (inline.strAt? "data").bind fun data =>
        if data.isEmpty || !functionResponseMimeAllowed mime then none
        else if isImageMediaType mime then some (len data)
        else none

def rawPromptChars (raw : Value) : ℕ :=
  let unhinted := (inlineImagePromptChars raw).getD 0
  if partHasMediaHint raw then
    match raw.get? "inlineData" with
    | some inline => hintedInlinePromptChars inline
    | none =>
      match raw.strAt? "text" with
      | some text => if isBlank text then 0 else len text
      | none => (hintedPdfUriChars raw).getD unhinted
  else unhinted

/-- A part that is neither raw nor marked. -/
def plainChars : IrPart → ℕ
  | .text text => if isBlank text then 0 else len text
  | .imageUrl url _ _ fileId => if imageFileIdWithoutUrl url fileId then 0 else remoteLen url
  | .imageBase64 _ data => len data
  | .document source _ name _ context => documentWrittenChars source name context
  | .thinking text signature => if isSome signature then len text else 0
  | _ => 0

variable (sj : SerdeJson)

def messagesPartChars : IrPart → ℕ
  | .promptCacheBreakpoint _ inner => messagesPartChars inner
  | .raw typeName raw => if typeName = "json" then len (sj.toString raw) else rawPromptChars raw
  | part => plainChars part

def reasoningPromptChars (summary : Option String) (raw : Option Value) : ℕ :=
  match raw.filter fun value => value.strAt? "type" == some "thinking" with
  | some value => optLen (value.strAt? "thinking")
  | none =>
    match summary with
    | some text => len text
    | none => optLen (raw.bind fun value => value.strAt? "summary")

def partsChars (parts : List IrPart) : ℕ := (parts.map (messagesPartChars sj)).sum

def itemChars : IrItem → ℕ
  | .system r | .developer r => len r.text
  | .user parts | .assistant parts _ => partsChars sj parts
  | .functionCall _ name arguments _ | .customToolCall _ name arguments => len name + len arguments
  | .functionOutput _ output parts _ => len output + partsChars sj parts
  | .reasoning _ summary raw => reasoningPromptChars summary raw
  | _ => 0

def toolChars : IrTool → ℕ
  | .function f => len f.name + len f.description + len (sj.toString f.parameters)
  | _ => 0

def cacheFloorTokens (items : List IrItem) (tools : List IrTool) : ℕ :=
  ((items.map (itemChars sj)).sum + (tools.map (toolChars sj)).sum) / 4 % 2 ^ 32

def sourceBytes (source : Value) : ℕ :=
  match source.strAt? "type" with
  | some "base64" | some "text" => optLen (source.strAt? "data")
  | some "url" => ((source.strAt? "url").map remoteLen).getD 0
  | some "file" => ((source.strAt? "file_id").map remoteLen).getD 0
  | _ => 0

/-- The text and the payload of a block. -/
def blockBytes (block : Value) : ℕ :=
  match block.strAt? "type" with
  | some "text" => optLen (block.strAt? "text")
  | some "thinking" => optLen (block.strAt? "thinking")
  | some "image" => ((block.get? "source").map sourceBytes).getD 0
  | some "document" => ((block.get? "source").map sourceBytes).getD 0 +
      optLen (block.strAt? "title") + optLen (block.strAt? "context")
  | _ => 0

/-- A raw part that is sent as it is. -/
def sentAsIs (part : IrPart) : Bool :=
  match peeled part with
  | .raw typeName raw => (plainMediaPart raw).isNone &&
      (functionResponseImage (.raw typeName raw)).isNone && messagesRawPassthrough raw
  | _ => false

/-- The bytes of the block of a part; a raw block is not prompt text. -/
def writtenBytes (part : IrPart) : ℕ :=
  if sentAsIs part then 0 else ((encodePart part).1.map blockBytes).getD 0

/-- The bytes of a part in a result, where the JSON of a payload is text. -/
def resultBytes (ordered : Bool) (part : IrPart) : ℕ :=
  match functionOutputJsonText sj part with
  | some json => len json
  | none => if sentAsIs part then 0 else ((resultPart sj ordered part).1.map blockBytes).sum

def itemBytes : IrItem → ℕ
  | .system r | .developer r => len (systemRoleText r).1
  | .user parts | .assistant parts _ => (parts.map writtenBytes).sum
  | .functionCall _ name arguments _ | .customToolCall _ name arguments => len name + len arguments
  | .functionOutput _ output parts _ =>
    (if orderedText parts then 0 else len output) +
      (parts.map (resultBytes sj (orderedText parts))).sum
  | .reasoning encrypted summary raw =>
    ((reasoningBlock encrypted summary raw).map blockBytes).getD 0
  | _ => 0

/-- An image that is no data URL, bytes that are not blank, a document that is sent. -/
def followsPlain : IrPart → Bool
  | .imageUrl url _ _ fileId =>
    imageFileIdWithoutUrl url fileId || (!isBlank url && (splitDataUrl url).isNone)
  | .imageBase64 _ data => data.isEmpty || !isBlank data
  | .document source _ _ _ _ => (droppedDocument source).isNone
  | _ => true

/-- Inline bytes that are only white space. -/
def blankInline (raw : Value) : Bool :=
  ((raw.get? "inlineData").bind fun inline => inline.strAt? "data").any fun data =>
    !data.isEmpty && isBlank data

def followsRaw (raw : Value) : Bool :=
  match plainMediaPart raw with
  | some plain => followsPlain plain
  | none => !blankInline raw

def follows : IrPart → Bool
  | .promptCacheBreakpoint _ inner => follows inner
  | .raw typeName raw => typeName ≠ "json" && followsRaw raw
  | part => followsPlain part

/-- In a result, text is not blank, and JSON may stand by itself. -/
def followsInResult : IrPart → Bool
  | .text text => text.isEmpty || !isBlank text
  | part => (functionOutputJsonText sj part).isSome || follows part

def followsItem : IrItem → Bool
  | .system r | .developer r => r.contentParts.isEmpty
  | .user parts | .assistant parts _ => parts.all follows
  | .functionOutput _ output parts _ =>
    (output.isEmpty || !orderedText parts) && parts.all (followsInResult sj)
  | _ => true

theorem isBlank_empty : isBlank "" = true := by decide

theorem len_of_isEmpty {text : String} (h : text.isEmpty = true) : len text = 0 := by
  rw [String.isEmpty_iff.mp h]
  rfl

theorem blockBytes_textBlock (text : String) : blockBytes (textBlock text) = len text := rfl

theorem optLen_trimmed (text : Option String) :
    optLen (((trimmed text).map Value.string).bind Value.asStr?) = trimmedNonemptyLen text := by
  unfold trimmedNonemptyLen
  cases trimmed text <;> rfl

theorem sourceBytes_document {source : IrDocumentSource} (mediaType : String)
    (h : (droppedDocument source).isNone = true) :
    sourceBytes (documentSource source mediaType) = sourceChars source := by
  cases source with
  | s3 => cases h
  | _ => rfl

theorem document_fields (title citations context : Option Value) (source : Value) :
    let block := ((((Value.object [("type", "document")]).insertSome "title" title).insert "source"
      source).insertSome "citations" citations).insertSome "context" context
    block.strAt? "type" = some "document" ∧ block.get? "source" = some source ∧
      block.strAt? "title" = title.bind Value.asStr? ∧
      block.strAt? "context" = context.bind Value.asStr? := by
  cases title <;> cases citations <;> cases context <;>
    simp [Value.insertSome, Value.insert, Value.insertField, Value.strAt?, Value.get?, List.lookup_cons,
      Value.asStr?]

theorem encodeDocument_bytes {source : IrDocumentSource} (mediaType : String)
    (name context : Option String) (citations : Option Value)
    (h : (droppedDocument source).isNone = true) :
    blockBytes (((encodeDocument source mediaType name).insertSome "citations" citations).insertSome
      "context" ((trimmed context).map .string)) = documentWrittenChars source name context := by
  obtain ⟨htype, hsource, htitle, hcontext⟩ := document_fields ((trimmed name).map .string) citations
    ((trimmed context).map .string) (documentSource source mediaType)
  unfold encodeDocument blockBytes
  simp only [htype]
  rw [hsource, htitle, hcontext, optLen_trimmed, optLen_trimmed, Option.map_some, Option.getD_some,
    sourceBytes_document mediaType h]
  rfl

theorem encodeImageUrl_bytes {url : String} (detail : Option String) {fileId : Option String}
    (h : (imageFileIdWithoutUrl url fileId || (!isBlank url && (splitDataUrl url).isNone)) = true) :
    (if imageFileIdWithoutUrl url fileId then 0 else remoteLen url) =
      ((encodeImageUrl url detail fileId).1.map blockBytes).getD 0 := by
  cases hfile : imageFileIdWithoutUrl url fileId with
  | true =>
    have hempty : url = "" := String.isEmpty_iff.mp (Bool.and_eq_true_iff.mp hfile).1
    rw [encodeImageUrl, hempty, isBlank_empty, if_pos rfl, if_pos rfl]
    split <;> rfl
  | false =>
    rw [hfile, Bool.false_or] at h
    obtain ⟨hblank, hdata⟩ := Bool.and_eq_true_iff.mp h
    have hshown : isBlank url = false := by simpa using hblank
    rw [encodeImageUrl, hshown, hfile, Option.isNone_iff_eq_none.mp hdata]
    rfl

theorem encodePlain_bytes {part : IrPart} (h : followsPlain part = true) :
    plainChars part = ((encodePlain part).1.map blockBytes).getD 0 := by
  cases part with
  | text text =>
    simp only [plainChars, encodePlain]
    split <;> rfl
  | imageUrl url detail bucketOwner fileId =>
    simp only [plainChars, encodePlain]
    exact encodeImageUrl_bytes detail h
  | imageBase64 mediaType data =>
    simp only [plainChars, encodePlain]
    split
    · rename_i hblank
      have hempty : data.isEmpty = true := by simpa [followsPlain, hblank] using h
      exact len_of_isEmpty hempty
    · rfl
  | document source mediaType name citationsEnabled context =>
    simp only [plainChars, encodePlain]
    rw [Option.isNone_iff_eq_none.mp h]
    exact (encodeDocument_bytes mediaType name context _ h).symm
  | thinking text signature =>
    simp only [plainChars, encodePlain]
    cases signature with
    | none => rfl
    | some sig =>
      cases hsig : sig.isEmpty with
      | true => simp [isSome, Option.filter, hsig]
      | false =>
        simp only [isSome, Option.filter, Option.any_some, hsig, Bool.not_false, if_pos]
        rfl
  | audio data format => rfl
  | raw typeName raw => rfl
  | promptCacheBreakpoint mode inner => rfl

theorem plainInline_chars {inline : Value} {plain : IrPart} (h : plainInline inline = some plain) :
    hintedInlinePromptChars inline = plainChars plain := by
  unfold plainInline at h
  unfold hintedInlinePromptChars
  dsimp only at h ⊢
  cases hempty : ((inline.strAt? "data").getD "").isEmpty with
  | true =>
    rw [hempty, if_pos rfl] at h
    cases h
  | false =>
    rw [hempty, if_neg (by decide)] at h
    cases haudio : isAudioMediaType ((inline.strAt? "mimeType").getD "") with
    | true =>
      rw [haudio, if_pos rfl] at h
      obtain rfl := Option.some.inj h
      rfl
    | false =>
      rw [haudio, if_neg (by decide)] at h
      split at h
      · obtain rfl := Option.some.inj h
        rfl
      · obtain rfl := Option.some.inj h
        rfl

theorem plainInline_none {inline : Value} (h : plainInline inline = none) :
    ((inline.strAt? "data").getD "").isEmpty = true := by
  unfold plainInline at h
  dsimp only at h
  by_contra hne
  rw [if_neg hne] at h
  split at h
  · cases h
  · split at h <;> cases h

theorem plainFile_chars {file : Value} {plain : IrPart} (h : plainFile file = some plain) :
    (if isPdfMediaType ((file.strAt? "mimeType").getD "") &&
        !((file.strAt? "fileUri").getD "").isEmpty
      then some (remoteLen ((file.strAt? "fileUri").getD "")) else none) = some (plainChars plain) := by
  unfold plainFile at h
  dsimp only at h
  split at h
  · rename_i hpdf
    obtain rfl := Option.some.inj h
    rw [if_pos hpdf]
    unfold documentRefSource
    split <;> rfl
  · cases h

theorem rawPromptChars_some {raw : Value} {plain : IrPart} (h : plainMediaPart raw = some plain) :
    rawPromptChars raw = plainChars plain := by
  unfold plainMediaPart at h
  unfold rawPromptChars
  cases hhint : partHasMediaHint raw with
  | false =>
    rw [hhint] at h
    cases h
  | true =>
    rw [hhint] at h
    dsimp only [Bool.not_true] at h ⊢
    rw [if_neg (by decide)] at h
    rw [if_pos rfl]
    cases hinline : raw.get? "inlineData" with
    | some inline =>
      rw [hinline] at h
      exact plainInline_chars h
    | none =>
      rw [hinline] at h
      dsimp only at h ⊢
      cases htext : raw.strAt? "text" with
      | some text =>
        rw [htext] at h
        obtain rfl := Option.some.inj h
        rfl
      | none =>
        rw [htext] at h
        obtain ⟨file, hfile, hplain⟩ := Option.bind_eq_some_iff.mp h
        have hchars : hintedPdfUriChars raw = some (plainChars plain) := by
          rw [hintedPdfUriChars, hfile]
          exact plainFile_chars hplain
        dsimp only
        rw [hchars]
        rfl

/-- Bytes and their media type, when a part writes them as an image. -/
def imageBytes (mime data : String) : Option (String × String) :=
  if isBlank data || !isImageMediaType mime then none else some (mime, data)

theorem functionResponseImage_raw (typeName : String) (raw : Value) :
    functionResponseImage (.raw typeName raw) =
      (raw.get? "inlineData").bind fun inline =>
        (inline.strAt? "mimeType").bind fun mime => (inline.strAt? "data").bind (imageBytes mime) := by
  simp only [functionResponseImage, functionResponseInline, inlineBytes]
  cases raw.get? "inlineData" with
  | none => rfl
  | some inline =>
    simp only [Option.bind_some]
    cases inline.strAt? "mimeType" with
    | none => rfl
    | some mime =>
      cases inline.strAt? "data" with
      | none => rfl
      | some data =>
        simp only [Option.bind_some, Option.map_some, imageBytes, Option.filter_some]
        by_cases hblank : isBlank data = true
        · simp [hblank]
        · by_cases himage : isImageMediaType mime = true
          · simp [hblank, himage, functionResponseMimeAllowed, Option.filter_some]
          · by_cases hallowed : functionResponseMimeAllowed mime = true
            · simp [hblank, himage, hallowed, Option.filter_some]
            · simp [hblank, himage, hallowed]

theorem inlineImage_chars (typeName : String) {raw : Value} (h : blankInline raw = false) :
    inlineImagePromptChars raw =
      (functionResponseImage (.raw typeName raw)).map fun inline => len inline.2 := by
  rw [functionResponseImage_raw]
  unfold blankInline at h
  unfold inlineImagePromptChars
  cases hinline : raw.get? "inlineData" with
  | none => rfl
  | some inline =>
    rw [hinline, Option.bind_some] at h
    simp only [Option.bind_some]
    cases inline.strAt? "mimeType" with
    | none => rfl
    | some mime =>
      cases hdata : inline.strAt? "data" with
      | none => rfl
      | some data =>
        rw [hdata, Option.any_some] at h
        have hblank : isBlank data = data.isEmpty := by
          cases hempty : data.isEmpty with
          | true => rw [String.isEmpty_iff.mp hempty, isBlank_empty]
          | false => simpa [hempty] using h
        simp only [Option.bind_some, imageBytes, functionResponseMimeAllowed, hblank]
        by_cases himage : isImageMediaType mime = true
        · cases hempty : data.isEmpty <;> simp [himage]
        · cases hempty : data.isEmpty <;> simp [himage]

theorem rawPromptChars_none (typeName : String) {raw : Value} (h : plainMediaPart raw = none)
    (hblank : blankInline raw = false) :
    rawPromptChars raw =
      ((functionResponseImage (.raw typeName raw)).map fun inline => len inline.2).getD 0 := by
  rw [← inlineImage_chars typeName hblank]
  unfold plainMediaPart at h
  unfold rawPromptChars
  cases hhint : partHasMediaHint raw with
  | false => rfl
  | true =>
    rw [hhint] at h
    dsimp only [Bool.not_true] at h ⊢
    rw [if_neg (by decide)] at h
    rw [if_pos rfl]
    unfold inlineImagePromptChars
    cases hinline : raw.get? "inlineData" with
    | some inline =>
      rw [hinline] at h
      have hempty := plainInline_none h
      have hnone : (inline.strAt? "mimeType").bind (fun mime => (inline.strAt? "data").bind fun data =>
          if data.isEmpty || !functionResponseMimeAllowed mime then none
          else if isImageMediaType mime then some (len data) else none) = none := by
        cases inline.strAt? "mimeType" with
        | none => rfl
        | some mime =>
          cases hdata : inline.strAt? "data" with
          | none => rfl
          | some data =>
            rw [hdata, Option.getD_some] at hempty
            simp only [Option.bind_some, hempty, Bool.true_or, if_pos]
      simp only [Option.bind_some, hnone, hintedInlinePromptChars, hempty, Bool.true_or, if_pos]
      rfl
    | none =>
      rw [hinline] at h
      dsimp only at h ⊢
      cases htext : raw.strAt? "text" with
      | some text =>
        rw [htext] at h
        cases h
      | none =>
        rw [htext] at h
        have hfile : hintedPdfUriChars raw = none := by
          unfold hintedPdfUriChars
          cases hdata : raw.get? "fileData" with
          | none => rfl
          | some file =>
            rw [hdata] at h
            dsimp only [Option.bind_some] at h ⊢
            unfold plainFile at h
            dsimp only at h
            split at h
            · cases h
            · rename_i hpdf
              rw [if_neg hpdf]
        dsimp only
        rw [hfile]
        rfl

variable {sj}

theorem encodeRaw_bytes (typeName : String) {raw : Value} (h : followsRaw raw = true) :
    rawPromptChars raw = if sentAsIs (.raw typeName raw) then 0
      else ((encodeRaw typeName raw).1.map blockBytes).getD 0 := by
  unfold followsRaw at h
  unfold sentAsIs encodeRaw
  cases hplain : plainMediaPart raw with
  | some plain =>
    rw [hplain] at h
    rw [rawPromptChars_some hplain, encodePlain_bytes h]
    simp only [peeled, hplain, Option.isNone_some, Bool.false_and]
    rfl
  | none =>
    rw [hplain] at h
    have hblank : blankInline raw = false := by simpa using h
    rw [rawPromptChars_none typeName hplain hblank]
    simp only [peeled, hplain, Option.isNone_none, Bool.true_and]
    cases himage : functionResponseImage (.raw typeName raw) with
    | some image => rfl
    | none => cases messagesRawPassthrough raw <;> rfl

theorem chars_eq_written {part : IrPart} (h : follows part = true) :
    messagesPartChars sj part = writtenBytes part := by
  induction part with
  | promptCacheBreakpoint mode inner ih => exact ih h
  | raw typeName raw =>
    obtain ⟨hjson, hraw⟩ := Bool.and_eq_true_iff.mp h
    rw [messagesPartChars, if_neg (of_decide_eq_true hjson), encodeRaw_bytes typeName hraw]
    rfl
  | _ => exact encodePlain_bytes h

theorem json_chars {part : IrPart} {json : String} (h : functionOutputJsonText sj part = some json) :
    messagesPartChars sj part = len json := by
  induction part with
  | promptCacheBreakpoint mode inner ih => exact ih h
  | raw typeName raw =>
    simp only [functionOutputJsonText, peeled] at h
    split at h
    · rename_i hjson
      obtain rfl := Option.some.inj h
      rw [messagesPartChars, if_pos hjson]
    · cases h
  | _ => cases h

theorem sum_toList (block : Option Value) :
    (block.toList.map blockBytes).sum = (block.map blockBytes).getD 0 := by
  cases block <;> simp

theorem resultBytes_encoded {ordered : Bool} {part : IrPart}
    (hjson : functionOutputJsonText sj part = none)
    (hblocks : (resultPart sj ordered part).1 = (encodePart part).1.toList) :
    resultBytes sj ordered part = writtenBytes part := by
  rw [resultBytes, hjson, hblocks, sum_toList]
  rfl

theorem orderedText_of_mem {parts : List IrPart} {text : String} (h : .text text ∈ parts)
    (hne : text.isEmpty = false) : orderedText parts = true :=
  List.any_eq_true.mpr ⟨_, h, by simp [hne]⟩

/-- The count of a part of a result is what stands for it in the result. -/
theorem chars_eq_result {parts : List IrPart} {part : IrPart} (hmem : part ∈ parts)
    (h : followsInResult sj part = true) :
    messagesPartChars sj part = resultBytes sj (orderedText parts) part := by
  cases hjson : functionOutputJsonText sj part with
  | some json => rw [json_chars hjson, resultBytes, hjson]
  | none =>
    cases part with
    | text text =>
      cases hempty : text.isEmpty with
      | true =>
        obtain rfl := String.isEmpty_iff.mp hempty
        cases orderedText parts <;> rfl
      | false =>
        have hblank : isBlank text = false := by simpa [followsInResult, hempty] using h
        have hchars : messagesPartChars sj (.text text) = if isBlank text then 0 else len text := rfl
        rw [orderedText_of_mem hmem hempty, hchars, hblank, resultBytes, hjson, resultPart, hempty]
        simp [sentAsIs, peeled, blockBytes_textBlock]
    | raw typeName raw =>
      have hother : typeName ≠ "json" := by
        intro heq
        simp [functionOutputJsonText, peeled, heq] at hjson
      have hfollows : follows (.raw typeName raw) = true := by simpa [followsInResult, hjson] using h
      rw [chars_eq_written hfollows]
      exact (resultBytes_encoded hjson (by rw [resultPart, if_neg hother])).symm
    | promptCacheBreakpoint mode inner =>
      have hfollows : follows (.promptCacheBreakpoint mode inner) = true := by
        simpa [followsInResult, hjson] using h
      rw [chars_eq_written hfollows]
      exact (resultBytes_encoded hjson (by rw [resultPart, hjson])).symm
    | _ => exact (chars_eq_written h).trans (resultBytes_encoded hjson rfl).symm

theorem reasoning_bytes (encrypted summary : Option String) (raw : Option Value) :
    reasoningPromptChars summary raw =
      ((reasoningBlock encrypted summary raw).map blockBytes).getD 0 := by
  unfold reasoningPromptChars reasoningBlock
  have hblock : ∀ text : String, blockBytes ((Value.object [("type", "thinking"),
      ("thinking", text)]).insertSome "signature" (encrypted.map .string)) = len text := by
    intro text
    cases encrypted <;> rfl
  cases hraw : raw.filter fun value => value.strAt? "type" == some "thinking" with
  | some value =>
    have htype := (Option.filter_eq_some_iff.mp hraw).2
    simp only [Option.map_some, Option.getD_some, blockBytes, beq_iff_eq.mp htype]
  | none =>
    cases summary with
    | some text => exact (hblock text).symm
    | none =>
      simp only [Option.none_or]
      cases raw.bind fun value => value.strAt? "summary" with
      | none => rfl
      | some text => exact (hblock text).symm

theorem itemChars_eq {item : IrItem} (h : followsItem sj item = true) :
    itemChars sj item = itemBytes sj item := by
  have hparts : ∀ parts : List IrPart, parts.all follows = true →
      partsChars sj parts = (parts.map writtenBytes).sum := fun parts hall =>
    congrArg List.sum (List.map_congr_left fun part hmem =>
      chars_eq_written (List.all_eq_true.mp hall part hmem))
  cases item with
  | system r => simp only [itemChars, itemBytes, systemRoleText, show r.contentParts.isEmpty from h, if_pos]
  | developer r => simp only [itemChars, itemBytes, systemRoleText, show r.contentParts.isEmpty from h, if_pos]
  | user parts => exact hparts parts h
  | assistant parts phase => exact hparts parts h
  | functionOutput callId output parts isError =>
    obtain ⟨houtput, hall⟩ := Bool.and_eq_true_iff.mp h
    refine congrArg₂ (· + ·) ?_ (congrArg List.sum (List.map_congr_left fun part hmem =>
      chars_eq_result hmem (List.all_eq_true.mp hall part hmem)))
    cases hordered : orderedText parts with
    | false => rfl
    | true =>
      rw [hordered, Bool.not_true, Bool.or_false] at houtput
      exact len_of_isEmpty houtput
  | reasoning encrypted summary raw => exact reasoning_bytes encrypted summary raw
  | _ => rfl

theorem prefix_appendPiece (text piece : String) : text.toList <+: (appendPiece text piece).toList := by
  unfold appendPiece
  split
  · rename_i hempty
    rw [String.isEmpty_iff.mp hempty]
    exact List.nil_prefix
  · rw [String.toList_append, String.toList_append, List.append_assoc]
    exact List.prefix_append _ _

theorem suffix_appendPiece (text piece : String) : piece.toList <:+ (appendPiece text piece).toList := by
  unfold appendPiece
  split
  · exact List.suffix_refl _
  · rw [String.toList_append]
    exact List.suffix_append _ _

theorem pieces_within (text : String) (pieces : List String) :
    text.toList <:+: (pieces.foldl appendPiece text).toList ∧
      ∀ piece ∈ pieces, piece.toList <:+: (pieces.foldl appendPiece text).toList := by
  induction pieces generalizing text with
  | nil => exact ⟨List.infix_refl _, fun _ hmem => by cases hmem⟩
  | cons first rest ih =>
    obtain ⟨htext, hrest⟩ := ih (appendPiece text first)
    refine ⟨(prefix_appendPiece text first).isInfix.trans htext, fun piece hmem => ?_⟩
    rcases List.mem_cons.mp hmem with rfl | hmem
    · exact (suffix_appendPiece text piece).isInfix.trans htext
    · exact hrest piece hmem

theorem resultPart_json {part : IrPart} {json : String}
    (h : functionOutputJsonText sj part = some json) :
    (resultPart sj true part).1 = [textBlock json] := by
  cases part with
  | promptCacheBreakpoint mode inner =>
    rw [resultPart, h]
    rfl
  | raw typeName raw =>
    simp only [functionOutputJsonText, peeled] at h
    split at h
    · rename_i hjson
      obtain rfl := Option.some.inj h
      rw [resultPart, if_pos hjson]
      rfl
    · cases h
  | _ => cases h

theorem json_in_result (output : String) {parts : List IrPart} {part : IrPart} {json : String}
    (hmem : part ∈ parts) (hjson : functionOutputJsonText sj part = some json) (hne : json ≠ "") :
    ∃ text : String, textBlock text ∈ resultBlocks sj output parts ∧ json.toList <:+: text.toList := by
  unfold resultBlocks
  cases hordered : orderedText parts with
  | true =>
    refine ⟨json, List.mem_append_right _ (List.mem_flatMap.mpr ⟨part, hmem, ?_⟩), List.infix_refl _⟩
    rw [resultPart_json hjson]
    exact List.mem_singleton_self _
  | false =>
    have hleading : leadingText sj output parts =
        (parts.filterMap (functionOutputJsonText sj)).foldl appendPiece output := by
      simp [leadingText, functionOutputText, hordered]
    have hwithin := (pieces_within output (parts.filterMap (functionOutputJsonText sj))).2 json
      (List.mem_filterMap.mpr ⟨part, hmem, hjson⟩)
    rw [← hleading] at hwithin
    have hshown : (leadingText sj output parts).isEmpty = false := by
      refine Bool.eq_false_iff.mpr fun hempty => hne ?_
      rw [String.isEmpty_iff.mp hempty] at hwithin
      exact String.toList_inj.mp (List.infix_nil.mp hwithin)
    refine ⟨leadingText sj output parts, List.mem_append_left _ ?_, hwithin⟩
    rw [hshown, if_neg (by decide)]
    exact List.mem_singleton_self _

/-- A block that is kept for a later turn. -/
def redactedThinking : IrPart :=
  .raw "redacted_thinking" (.object [("type", "redacted_thinking"), ("data", "AAAA")])

end Wiremux.CacheFloor
