import Mathlib.Data.List.Forall2
import Wiremux.SystemText

set_option autoImplicit false

/-!
# When the system and developer text arrives

One marked text is lost by the Responses decoder, and on Responses the messages without a
marker come before those with one. Otherwise every message has its text in the slot.
-/
namespace Wiremux.SystemTextKept
open JsonValue StreamEvents Completion RequestParts SystemText

/-- A payload, or a payload in one breakpoint with a mode. -/
inductive Flat : IrPart → Prop where
  | plain {part : IrPart} (h : hasBreakpoint part = false) : Flat part
  | marked {mode : String} {part : IrPart} (hmode : mode ≠ "") (h : hasBreakpoint part = false) :
      Flat (.promptCacheBreakpoint mode part)

theorem peeled_of_plain {part : IrPart} (h : hasBreakpoint part = false) : peeled part = part := by
  cases part with
  | promptCacheBreakpoint mode inner => cases h
  | _ => rfl

theorem Flat.peel {part : IrPart} (h : Flat part) : (peelPromptCache part).1 = peeled part := by
  cases h with
  | plain hplain =>
    rw [peeled_of_plain hplain]
    cases part with
    | promptCacheBreakpoint mode inner => cases hplain
    | _ => rfl
  | marked _ hplain => exact (peeled_of_plain hplain).symm

theorem Flat.mode {part : IrPart} (h : Flat part) {mode : String}
    (hmode : (peelPromptCache part).2 = some mode) : mode ≠ "" := by
  cases h with
  | plain hplain =>
    rw [hasBreakpoint, hmode] at hplain
    cases hplain
  | marked hne _ => exact Option.some.inj hmode ▸ hne

theorem withPromptCache_flat {part : Option IrPart} {src : Value} {p : IrPart}
    (hpart : ∀ q, part = some q → hasBreakpoint q = false) (h : withPromptCache part src = some p) :
    Flat p := by
  unfold withPromptCache at h
  split at h
  · cases h
  · rename_i q
    have hq := hpart q rfl
    split at h
    · obtain rfl := Option.some.inj h
      exact .plain hq
    · rename_i marker _
      obtain rfl := Option.some.inj h
      refine .marked ?_ hq
      cases hmode : ((marker.strAt? "mode").map trim).filter (fun mode => !mode.isEmpty) with
      | none => decide
      | some mode =>
        have hne := (Option.filter_eq_some_iff.mp hmode).2
        rintro rfl
        cases hne

theorem decodeFile_plain {part : Value} {p : IrPart} (h : decodeFile part = some p) :
    hasBreakpoint p = false := by
  unfold decodeFile at h
  dsimp only at h
  split at h
  · obtain rfl := Option.some.inj h
    rfl
  · split at h
    · obtain rfl := Option.some.inj h
      rfl
    · obtain ⟨data, _, rfl⟩ := Option.map_eq_some_iff.mp h
      split <;> rfl

theorem decodeInputAudio_plain {part : Value} {p : IrPart} (h : decodeInputAudio part = some p) :
    hasBreakpoint p = false := by
  obtain ⟨data, _, rfl⟩ := Option.map_eq_some_iff.mp h
  rfl

theorem imagePart_plain (url : String) (detail fileId : Option String) :
    hasBreakpoint (imagePart url detail fileId) = false := by
  unfold imagePart
  split <;> rfl

theorem chatImage_plain {part : Value} {p : IrPart} (h : chatImage part = some p) :
    hasBreakpoint p = false := by
  obtain ⟨url, _, rfl⟩ := Option.map_eq_some_iff.mp h
  exact imagePart_plain _ _ _

theorem responsesImage_plain {part : Value} {p : IrPart} (h : responsesImage part = some p) :
    hasBreakpoint p = false := by
  unfold responsesImage at h
  dsimp only at h
  split at h
  · obtain rfl := Option.some.inj h
    exact imagePart_plain _ _ _
  · split at h
    · obtain rfl := Option.some.inj h
      rfl
    · obtain ⟨id, _, rfl⟩ := Option.map_eq_some_iff.mp h
      rfl

theorem text_plain {t : Option String} {p : IrPart} (h : t.map IrPart.text = some p) :
    hasBreakpoint p = false := by
  obtain ⟨t, _, rfl⟩ := Option.map_eq_some_iff.mp h
  rfl

theorem decodeTyped_plain {source : SourceWire} {part : Value} {p : IrPart}
    (h : decodeTyped source part = some p) : hasBreakpoint p = false := by
  unfold decodeTyped at h
  cases source with
  | chatCompletions =>
    simp only at h
    split at h
    all_goals first
      | exact text_plain h
      | exact chatImage_plain h
      | exact decodeFile_plain h
      | exact decodeInputAudio_plain h
      | (obtain rfl := Option.some.inj h; rfl)
  | responses =>
    simp only at h
    split at h
    all_goals first
      | exact text_plain h
      | exact responsesImage_plain h
      | exact decodeFile_plain h
      | exact decodeInputAudio_plain h
      | (obtain rfl := Option.some.inj h; rfl)
      | skip
    cases htext : (part.strAt? "text").map IrPart.text with
    | none =>
      rw [htext] at h
      obtain rfl := Option.some.inj h
      rfl
    | some q =>
      rw [htext] at h
      obtain rfl := Option.some.inj h
      exact text_plain htext

theorem decodePart_flat {source : SourceWire} {part : Value} {p : IrPart}
    (h : decodePart source part = some p) : Flat p := by
  unfold decodePart at h
  split at h
  · obtain rfl := Option.some.inj h
    exact .plain rfl
  · exact withPromptCache_flat (fun _ => decodeTyped_plain) h

theorem decodeContent_flat {source : SourceWire} {content : Option Value} :
    ∀ part ∈ decodeContent source content, Flat part := by
  intro part hpart
  unfold decodeContent at hpart
  split at hpart
  · obtain rfl := List.mem_singleton.mp hpart
    exact .plain rfl
  · obtain ⟨value, _, hvalue⟩ := List.mem_filterMap.mp hpart
    exact decodePart_flat hvalue
  · cases hpart

theorem roleParts_flat {source : SourceWire} {message : Value} {parts : List IrPart}
    (h : roleParts source message = some parts) : ∀ part ∈ parts, Flat part := by
  unfold roleParts at h
  split at h
  · obtain rfl := Option.some.inj h
    exact decodeContent_flat
  · obtain rfl := Option.some.inj h
    exact decodeContent_flat
  · cases h

theorem roleMessages_flat {source : SourceWire} {body : Value} :
    ∀ parts ∈ roleMessages source body, ∀ part ∈ parts, Flat part := by
  intro parts hparts
  unfold roleMessages at hparts
  cases source with
  | chatCompletions =>
    obtain ⟨message, _, hmessage⟩ := List.mem_filterMap.mp hparts
    exact roleParts_flat hmessage
  | responses =>
    rcases List.mem_append.mp hparts with hparts | hparts
    · obtain ⟨text, _, rfl⟩ := Option.map_eq_some_iff.mp (Option.mem_toList.mp hparts)
      intro part hpart
      obtain rfl := List.mem_singleton.mp hpart
      exact .plain rfl
    · obtain ⟨message, _, hmessage⟩ := List.mem_filterMap.mp hparts
      exact roleParts_flat hmessage

/-- The items of a body are its messages, each with both forms of its text. -/
theorem decode_roles (source : SourceWire) (body : Value) :
    (decode source body).map IrItem.role = (roleMessages source body).map (roleText source) := by
  have hmessage : ∀ message, (decodeMessage source message).map IrItem.role =
      (roleParts source message).map (roleText source) := by
    intro message
    unfold decodeMessage roleParts
    simp only
    split <;> rfl
  have hmessages : ∀ messages : List Value,
      (messages.filterMap (decodeMessage source)).map IrItem.role =
        (messages.filterMap (roleParts source)).map (roleText source) := by
    intro messages
    rw [List.map_filterMap, List.map_filterMap]
    exact congrArg (fun f => messages.filterMap f) (funext hmessage)
  unfold decode roleMessages
  cases source with
  | chatCompletions => exact hmessages _
  | responses =>
    simp only
    rw [List.map_append, List.map_append, hmessages, instructionItem]
    congr 1
    cases (body.strAt? "instructions").filter (fun text => !text.isEmpty) with
    | none => rfl
    | some text =>
      change [RoleText.mk text none []] = [RoleText.mk (text ++ "") none []]
      rw [String.append_empty]

theorem spells_spoken (parts : List IrPart) : Spells parts (spoken parts) := by
  induction parts with
  | nil => exact .nil
  | cons part rest ih =>
    unfold spoken at *
    rw [List.filterMap_cons]
    cases hpart : peeled part with
    | text t => exact .text hpart ih
    | _ => exact .aside (by rw [hpart]; rfl) ih

theorem spells_shown (parts : List IrPart) :
    Spells parts (join (parts.filterMap fun part => textOrThinking (peeled part))) := by
  induction parts with
  | nil => exact .nil
  | cons part rest ih =>
    rw [List.filterMap_cons]
    cases hpart : peeled part with
    | text t => exact .text hpart ih
    | thinking t _ => exact .thinking hpart ih
    | _ => exact .aside (by rw [hpart]; rfl) ih

theorem eq_spoken {parts : List IrPart} {s : String} (h : Spells parts s)
    (hthinking : ∀ part ∈ parts, ∀ t signature, peeled part ≠ .thinking t signature) : s = spoken parts := by
  induction h with
  | nil => rfl
  | text hpart _ ih =>
    have hrest := ih fun part hmem => hthinking part (List.mem_cons_of_mem _ hmem)
    rw [spoken, List.filterMap_cons, hpart, hrest]
    rfl
  | thinking hpart _ _ => exact absurd hpart (hthinking _ List.mem_cons_self _ _)
  | aside hpart _ ih =>
    have hrest := ih fun part hmem => hthinking part (List.mem_cons_of_mem _ hmem)
    rw [spoken, List.filterMap_cons, hpart, hrest]
    rfl

def entryText (wire : Wire) (r : RoleText) : String :=
  match wire with
  | .chatCompletions => roleContent r
  | .responses => roleContent r
  | .messages => sentText r
  | .gemini => sentText r
  | .converse => sentText r

theorem entryText_parts (wire : Wire) {r : RoleText} (h : r.contentParts ≠ []) :
    Spells r.contentParts (entryText wire r) := by
  have hne : r.contentParts.isEmpty = false := by
    rw [List.isEmpty_eq_false_iff]
    exact h
  cases wire with
  | chatCompletions =>
    rw [entryText, roleContent, hne]
    exact spells_spoken r.contentParts
  | responses =>
    rw [entryText, roleContent, hne]
    exact spells_spoken r.contentParts
  | _ =>
    rw [entryText, sentText_parts h]
    exact spells_shown r.contentParts

theorem entryText_text (wire : Wire) {r : RoleText} (h : r.contentParts = []) :
    entryText wire r = r.text := by
  cases wire <;> simp [entryText, roleContent, sentText_plain h, h]

theorem partsText_chat {parts : List IrPart} (hflat : ∀ part ∈ parts, Flat part) :
    Spells parts (partsText .chatCompletions parts) := by
  have hpeel : parts.filterMap (fun part => textOrThinking (peelPromptCache part).1) =
      parts.filterMap fun part => textOrThinking (peeled part) := by
    induction parts with
    | nil => rfl
    | cons part rest ih =>
      rw [List.filterMap_cons, List.filterMap_cons, (hflat part List.mem_cons_self).peel,
        ih fun p hp => hflat p (List.mem_cons_of_mem _ hp)]
  rw [partsText, hpeel]
  exact spells_shown parts

theorem partsText_responses {parts : List IrPart} (h : parts.any hasBreakpoint = false) :
    Spells parts (partsText .responses parts) := by
  have hplain : parts.filterMap textOf = parts.filterMap fun part => textOf (peeled part) := by
    induction parts with
    | nil => rfl
    | cons part rest ih =>
      obtain ⟨hpart, hrest⟩ := Bool.or_eq_false_iff.mp h
      rw [List.filterMap_cons, List.filterMap_cons, peeled_of_plain hpart, ih hrest]
  rw [partsText, hplain]
  exact spells_spoken parts

theorem roleContentParts_eq (parts : List IrPart) :
    roleContentParts parts = parts ∨ (roleContentParts parts = [] ∧
      (parts.any hasBreakpoint = false ∨ ∃ part, parts = [part] ∧ hasBreakpoint part = true)) := by
  unfold roleContentParts
  cases hany : parts.any hasBreakpoint with
  | false => exact .inr ⟨by simp, .inl rfl⟩
  | true =>
    match parts, hany with
    | [], hany => cases hany
    | [part], hany =>
      refine .inr ⟨rfl, .inr ⟨part, rfl, ?_⟩⟩
      rw [List.any_cons, List.any_nil, Bool.or_false] at hany
      exact hany
    | _ :: _ :: _, _ => exact .inl (by simp)

/-- A message that is not lost has its text in the entry of every wire. -/
theorem spells_entry (wire : Wire) {source : SourceWire} {parts : List IrPart}
    (hflat : ∀ part ∈ parts, Flat part) (h : ¬ Lost source parts) :
    Spells parts (entryText wire (roleText source parts)) := by
  rcases roleContentParts_eq parts with hparts | ⟨hempty, hmarks⟩
  · cases hcases : parts with
    | nil =>
      rw [@entryText_text wire (roleText source []) rfl]
      cases source <;> exact .nil
    | cons part rest =>
      have hne : (roleText source parts).contentParts ≠ [] := by
        change roleContentParts parts ≠ []
        rw [hparts, hcases]
        exact List.cons_ne_nil _ _
      have hspells := entryText_parts wire hne
      rw [show (roleText source parts).contentParts = parts from hparts] at hspells
      rw [← hcases]
      exact hspells
  · rw [entryText_text wire hempty]
    cases source with
    | chatCompletions => exact partsText_chat hflat
    | responses =>
      rcases hmarks with hnone | ⟨part, rfl, hpart⟩
      · exact partsText_responses hnone
      · cases part with
        | promptCacheBreakpoint mode inner =>
          change Spells [.promptCacheBreakpoint mode inner] ""
          cases hinner : peeled inner with
          | text t =>
            have hplain : hasBreakpoint inner = false := by
              cases hflat _ List.mem_cons_self with
              | plain h => cases h
              | marked _ h => exact h
            rw [peeled_of_plain hplain] at hinner
            by_cases ht : t = ""
            · have hmarked : peeled (.promptCacheBreakpoint mode inner) = .text t := by
                rw [peeled, peeled_of_plain hplain, hinner]
              have hspells := Spells.text hmarked .nil
              rw [ht] at hspells
              exact hspells
            · exact absurd ⟨mode, t, by rw [hinner], ht⟩ h
          | _ => exact .aside (by rw [peeled, hinner]; rfl) .nil
        | _ => cases hpart

theorem entry_of_lost (wire : Wire) {source : SourceWire} {parts : List IrPart} (h : Lost source parts) :
    entryText wire (roleText source parts) = "" ∧ spoken parts ≠ "" := by
  cases source with
  | chatCompletions => cases h
  | responses =>
    obtain ⟨mode, t, rfl, ht⟩ := h
    refine ⟨entryText_text wire rfl, ?_⟩
    change t ++ "" ≠ ""
    rw [String.append_empty]
    exact ht

theorem inInput_eq {source : SourceWire} {parts : List IrPart} (hflat : ∀ part ∈ parts, Flat part) :
    inInput (roleText source parts) = marked parts := by
  match parts with
  | [] => rfl
  | [part] =>
    change ((peelPromptCache part).2.filter fun mode => !mode.isEmpty).isSome =
      (hasBreakpoint part || false)
    rw [hasBreakpoint, Bool.or_false]
    cases hmode : (peelPromptCache part).2 with
    | none => rfl
    | some mode =>
      have hne := (hflat part List.mem_cons_self).mode hmode
      simp [Option.filter, hne]
  | p :: q :: rest =>
    unfold inInput roleText roleContentParts marked
    cases (p :: q :: rest).any hasBreakpoint <;> simp [roleTextBreakpoint]

def slotOrder (wire : Wire) (messages : List (List IrPart)) : List (List IrPart) :=
  match wire with
  | .responses => unmarkedFirst messages
  | _ => messages

theorem slotOrder_perm (wire : Wire) (messages : List (List IrPart)) :
    (slotOrder wire messages).Perm messages := by
  cases wire with
  | responses =>
    have hperm := List.filter_append_perm (fun parts => !marked parts) messages
    simp only [Bool.not_not] at hperm
    exact hperm
  | _ => exact List.Perm.refl messages

theorem responses_slot {source : SourceWire} {messages : List (List IrPart)}
    (hflat : ∀ parts ∈ messages, ∀ part ∈ parts, Flat part) :
    instructions (messages.map (roleText source)) ++ inputMessages (messages.map (roleText source)) =
      (unmarkedFirst messages).map fun parts => entryText .responses (roleText source parts) := by
  have hfilter : ∀ p : Bool → Bool, (messages.map (roleText source)).filter (fun r => p (inInput r)) =
      (messages.filter fun parts => p (marked parts)).map (roleText source) := by
    intro p
    rw [List.filter_map]
    congr 1
    apply List.filter_congr
    intro parts hparts
    rw [Function.comp_apply, inInput_eq (hflat parts hparts)]
  have htext : ∀ r : RoleText, inInput r = false → r.text = entryText .responses r := by
    intro r hr
    have hparts : r.contentParts = [] := by
      obtain ⟨hempty, _⟩ := Bool.or_eq_false_iff.mp hr
      simpa using hempty
    exact (entryText_text .responses hparts).symm
  unfold instructions inputMessages unmarkedFirst
  rw [List.map_append]
  congr 1
  · rw [hfilter fun b => !b, List.map_map]
    apply List.map_congr_left
    intro parts hparts
    obtain ⟨hmem, hfalse⟩ := List.mem_filter.mp hparts
    apply htext
    rw [inInput_eq (hflat parts hmem)]
    simpa using hfalse
  · have hmarked := hfilter id
    simp only [id] at hmarked
    rw [hmarked, List.map_map]
    rfl

theorem shownTexts_twice (texts : List String) : shownTexts (shownTexts texts) = shownTexts texts := by
  unfold shownTexts
  rw [List.filter_filter]
  simp

theorem shown_slot (wire : Wire) (source : SourceWire) (body : Value) :
    shownTexts (systemSlot wire (decode source body)) =
      shownTexts ((slotOrder wire (roleMessages source body)).map fun parts =>
        entryText wire (roleText source parts)) := by
  unfold systemSlot
  simp only
  rw [decode_roles]
  cases wire with
  | responses => exact congrArg shownTexts (responses_slot roleMessages_flat)
  | chatCompletions => exact congrArg shownTexts (List.map_map ..)
  | messages =>
    simp only
    rw [readTexts_messages]
    exact congrArg shownTexts (List.map_map ..)
  | gemini =>
    simp only
    rw [readTexts_gemini]
    exact (shownTexts_twice _).trans (congrArg shownTexts (List.map_map ..))
  | converse =>
    simp only
    rw [readTexts_converse]
    exact (shownTexts_twice _).trans (congrArg shownTexts (List.map_map ..))

theorem forall₂_map_self {α β : Type*} {R : α → β → Prop} {f : α → β} {l : List α}
    (h : ∀ a ∈ l, R a (f a)) : List.Forall₂ R l (l.map f) := by
  rw [List.forall₂_map_right_iff, List.forall₂_same]
  exact h

theorem entries_eq {messages : List (List IrPart)} {entries : List String}
    (hthinking : NoThinking messages) (h : List.Forall₂ Spells messages entries) :
    entries = messages.map spoken := by
  induction h with
  | nil => rfl
  | cons hentry _ ih =>
    rw [List.map_cons, ih fun parts hmem => hthinking parts (List.mem_cons_of_mem _ hmem),
      eq_spoken hentry (hthinking _ List.mem_cons_self)]

theorem entry_eq_spoken (wire : Wire) {source : SourceWire} {parts : List IrPart}
    (hflat : ∀ part ∈ parts, Flat part) (hlost : ¬ Lost source parts)
    (hthinking : ∀ part ∈ parts, ∀ t signature, peeled part ≠ .thinking t signature) :
    entryText wire (roleText source parts) = spoken parts :=
  eq_spoken (spells_entry wire hflat hlost) hthinking

theorem imp_of_countP_eq {α : Type*} {p q : α → Bool} {l : List α} (hpq : ∀ x ∈ l, p x → q x)
    (h : l.countP q = l.countP p) : ∀ x ∈ l, q x → p x := by
  induction l with
  | nil => exact fun x hx => (List.not_mem_nil hx).elim
  | cons a rest ih =>
    have hrest : ∀ x ∈ rest, p x → q x := fun x hx => hpq x (List.mem_cons_of_mem _ hx)
    have hle := List.countP_mono_left hrest
    have ha := hpq a List.mem_cons_self
    rw [List.countP_cons, List.countP_cons] at h
    have hboth : rest.countP q = rest.countP p ∧ (q a → p a) := by
      by_cases hp : p a
      · rw [if_pos (ha hp), if_pos hp] at h
        exact ⟨by omega, fun _ => hp⟩
      · rw [if_neg hp] at h
        by_cases hq : q a
        · rw [if_pos hq] at h
          omega
        · rw [if_neg hq] at h
          exact ⟨by omega, fun hqa => absurd hqa hq⟩
    intro x hx hqx
    rcases List.mem_cons.mp hx with rfl | hx
    · exact hboth.2 hqx
    · exact ih hrest hboth.1 x hx hqx

theorem read_of_shown (wire : Wire) {source : SourceWire} {messages : List (List IrPart)}
    (hflat : ∀ parts ∈ messages, ∀ part ∈ parts, Flat part) (hthinking : NoThinking messages)
    (h : shownTexts (messages.map spoken) = shownTexts ((slotOrder wire messages).map fun parts =>
      entryText wire (roleText source parts))) : ∀ parts ∈ messages, ¬ Lost source parts := by
  have hcount := congrArg List.length h
  unfold shownTexts at hcount
  rw [← List.countP_eq_length_filter, ← List.countP_eq_length_filter, List.countP_map,
    List.countP_map, (slotOrder_perm wire messages).countP_eq] at hcount
  have himp : ∀ parts ∈ messages,
      !(entryText wire (roleText source parts)).isEmpty → !(spoken parts).isEmpty := by
    intro parts hparts hentry
    by_cases hlost : Lost source parts
    · rw [(entry_of_lost wire hlost).1] at hentry
      cases hentry
    · rw [← entry_eq_spoken wire (hflat parts hparts) hlost (hthinking parts hparts)]
      exact hentry
  intro parts hparts hlost
  obtain ⟨hentry, hspoken⟩ := entry_of_lost wire hlost
  have hshown := imp_of_countP_eq himp hcount parts hparts (by simpa using hspoken)
  rw [hentry] at hshown
  cases hshown

theorem kept_of_arrives {wire : Wire} {source : SourceWire} {body : Value}
    (h : Arrives wire source (roleMessages source body)) :
    Kept (roleMessages source body) (systemSlot wire (decode source body)) := by
  have hflat : ∀ parts ∈ roleMessages source body, ∀ part ∈ parts, Flat part := roleMessages_flat
  unfold Kept
  rw [shown_slot]
  generalize roleMessages source body = messages at *
  have hentries : List.Forall₂ Spells messages
      (messages.map fun parts => entryText wire (roleText source parts)) :=
    forall₂_map_self fun parts hparts => spells_entry wire (hflat parts hparts) (h.read parts hparts)
  cases wire with
  | responses =>
    rcases h.order rfl with hsame | ⟨hthinking, htexts⟩
    · refine ⟨_, hentries, ?_⟩
      change _ = shownTexts ((unmarkedFirst messages).map _)
      rw [hsame]
    · refine ⟨messages.map spoken, forall₂_map_self fun parts _ => spells_spoken parts, ?_⟩
      change _ = shownTexts ((unmarkedFirst messages).map _)
      rw [← htexts]
      refine congrArg shownTexts (List.map_congr_left fun parts hparts => ?_)
      have hmem : parts ∈ messages := (slotOrder_perm .responses messages).mem_iff.mp hparts
      exact (entry_eq_spoken .responses (hflat parts hmem) (h.read parts hmem)
        (hthinking parts hmem)).symm
  | _ => exact ⟨_, hentries, rfl⟩

theorem arrives_of_kept {wire : Wire} {source : SourceWire} {body : Value}
    (hthinking : NoThinking (roleMessages source body))
    (h : Kept (roleMessages source body) (systemSlot wire (decode source body))) :
    Arrives wire source (roleMessages source body) := by
  have hflat : ∀ parts ∈ roleMessages source body, ∀ part ∈ parts, Flat part := roleMessages_flat
  obtain ⟨entries, hspells, hshown⟩ := h
  rw [shown_slot] at hshown
  generalize roleMessages source body = messages at *
  obtain rfl := entries_eq hthinking hspells
  have hread := read_of_shown wire hflat hthinking hshown
  refine ⟨hread, ?_⟩
  rintro rfl
  refine .inr ⟨hthinking, ?_⟩
  rw [hshown]
  refine congrArg shownTexts (List.map_congr_left fun parts hparts => ?_)
  have hmem : parts ∈ messages := (slotOrder_perm .responses messages).mem_iff.mp hparts
  exact (entry_eq_spoken .responses (hflat parts hmem) (hread parts hmem) (hthinking parts hmem)).symm

/-- The text of the system and developer messages arrives in every slot unless a marked
text is lost or the order changes; without thinking parts only then. -/
theorem system_text_kept (wire : Wire) (source : SourceWire) (body : Value) :
    (Arrives wire source (roleMessages source body) →
      Kept (roleMessages source body) (systemSlot wire (decode source body))) ∧
    (NoThinking (roleMessages source body) →
      Kept (roleMessages source body) (systemSlot wire (decode source body)) →
        Arrives wire source (roleMessages source body)) :=
  ⟨kept_of_arrives, arrives_of_kept⟩

/-- A system message of one marked text, and a user turn. -/
def markedBody (key : String) : Value := .object [(key, .array [
  .object [("role", "system"), ("content", .array [.object [("type", "text"), ("text", "a"),
    ("prompt_cache_breakpoint", .object [])]])],
  .object [("role", "user"), ("content", "b")]])]

theorem marked_chat_text_kept : roleMessages .chatCompletions (markedBody "messages") ≠ [] ∧
    Kept (roleMessages .chatCompletions (markedBody "messages"))
      (systemSlot .messages (decode .chatCompletions (markedBody "messages"))) :=
  ⟨List.cons_ne_nil _ _, (system_text_kept .messages .chatCompletions (markedBody "messages")).1
    ⟨fun _ _ hlost => hlost, fun h => (Wire.noConfusion h)⟩⟩

theorem marked_responses_text_lost : ∃ (wire : Wire) (source : SourceWire) (body : Value),
    ¬ Kept (roleMessages source body) (systemSlot wire (decode source body)) := by
  refine ⟨.messages, .responses, markedBody "input", fun hkept => ?_⟩
  have hmessages : roleMessages .responses (markedBody "input") =
      [[.promptCacheBreakpoint "explicit" (.text "a")]] := rfl
  have hthinking : NoThinking (roleMessages .responses (markedBody "input")) := by
    rw [hmessages]
    intro parts hparts part hpart t signature h
    obtain rfl := List.mem_singleton.mp hparts
    obtain rfl := List.mem_singleton.mp hpart
    cases h
  have harrives := arrives_of_kept hthinking hkept
  rw [hmessages] at harrives
  exact harrives.read _ List.mem_cons_self ⟨"explicit", "a", rfl, by decide⟩

end Wiremux.SystemTextKept
