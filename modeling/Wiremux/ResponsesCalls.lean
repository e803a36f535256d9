import Wiremux.ResponsesGrammar

set_option autoImplicit false

/-!
# Tool calls through the Responses encoder

The ledger of a run says where each call stands: held, open or done, with the
frames that were sent at its output index. A call keeps its buffer until it is
done, and the buffer is what its done item states.
-/
namespace Wiremux.ResponsesCalls
open Std.TreeMap (mem_toList_iff_getElem?_eq_some)
open JsonValue StreamEvents StreamEventEncoding StreamEventFrames EmittingRuns EncoderState
open ResponsesEncoder ResponsesFrames OrderedMap ToolRouting StreamEncoderPush
open SideChannels CallEvents ResponsesGrammar

def callItem (custom : Bool) (id name args : String) : Value :=
  if custom then customToolCallItem id name args else functionCallItem id name args

def callKind (custom : Bool) : BlockKind := if custom then .customTool else .tool

theorem sent_added (enc : ℕ) (custom : Bool) (id name args : String) :
    Sent [outputItemAdded enc (callItem custom id name args)] [⟨enc, id, name, custom, args⟩] []
      [] := by
  cases custom <;> exact ⟨rfl, rfl, rfl⟩

theorem strAt?_toolExtraWrite (r : ResponsesSide) (enc : ℕ) (item : Value) {key : String}
    (hkey : key ≠ "id" ∧ key ≠ "status" ∧ key ≠ "namespace" ∧ key ≠ "created_by" ∧
      key ≠ "caller") : (toolExtraWrite r enc item).strAt? key = item.strAt? key := by
  obtain ⟨h1, h2, h3, h4, h5⟩ := hkey
  unfold toolExtraWrite
  cases r.toolExtra enc with
  | none => rfl
  | some extra =>
    simp only [writeItem, Value.strAt?_insertSome_of_ne _ _ h1,
      Value.strAt?_insertSome_of_ne _ _ h2, Value.strAt?_insertSome_of_ne _ _ h3,
      Value.strAt?_insertSome_of_ne _ _ h4, Value.strAt?_insertSome_of_ne _ _ h5]

theorem sent_done (r : ResponsesSide) (enc : ℕ) (custom : Bool) (id name args : String) :
    Sent [outputItemDone enc (toolExtraWrite r enc (callItem custom id name args))] []
      [⟨enc, id, name, custom, args⟩] [] := by
  refine ⟨rfl, ?_, rfl⟩
  have hread : ∀ item : Value, callItemOf? "response.output_item.done" (outputItemDone enc item) =
      if item.strAt? "type" = some "function_call" then some ⟨enc, (item.strAt? "call_id").getD "",
        (item.strAt? "name").getD "", false, (item.strAt? "arguments").getD ""⟩
      else if item.strAt? "type" = some "custom_tool_call" then some ⟨enc,
        (item.strAt? "call_id").getD "", (item.strAt? "name").getD "", true,
        (item.strAt? "input").getD ""⟩
      else none := fun _ => rfl
  have hcall : callItemOf? "response.output_item.done"
      (outputItemDone enc (toolExtraWrite r enc (callItem custom id name args))) =
      some ⟨enc, id, name, custom, args⟩ := by
    rw [hread, strAt?_toolExtraWrite _ _ _ (by decide), strAt?_toolExtraWrite _ _ _ (by decide),
      strAt?_toolExtraWrite _ _ _ (by decide), strAt?_toolExtraWrite _ _ _ (by decide),
      strAt?_toolExtraWrite _ _ _ (by decide)]
    cases custom <;> rfl
  simp only [doneCalls, List.filterMap_cons, hcall, List.filterMap_nil]

theorem sent_delta {type : String} (htype : isCallDelta type = true) (hadded : type ≠
    "response.output_item.added") (hdone : type ≠ "response.output_item.done") (enc : ℕ)
    (itemId delta : String) : Sent [callDelta type enc itemId delta] [] [] [(enc, delta)] := by
  have hread : ∀ event, event ≠ type →
      callItemOf? event (callDelta type enc itemId delta) = none := by
    intro event hne
    exact if_neg fun heq => hne (Option.some.inj heq).symm
  refine ⟨?_, ?_, ?_⟩
  · simp only [addedCalls, List.filterMap_cons, hread _ hadded.symm, List.filterMap_nil]
  · simp only [doneCalls, List.filterMap_cons, hread _ hdone.symm, List.filterMap_nil]
  · have : callDeltaOf? (callDelta type enc itemId delta) = some (enc, delta) := by
      unfold callDeltaOf?
      rw [if_pos (by simpa [callDelta, named] using htype)]
      rfl
    simp only [callDeltas, List.filterMap_cons, this, List.filterMap_nil]

/-- The open item, when it is a call. -/
def openCall (s : StreamEncoder) : Option (ℕ × BlockKind) :=
  s.openBlock.filter fun b => isCallKind b.2

/-- The item of a call, with these arguments. -/
def itemOf (c : CallStart) (enc : ℕ) (args : String) : CallItem :=
  ⟨enc, c.id, c.name, c.custom, args⟩

/-- Where a call stands, with its fragments so far. -/
inductive Stands (out : List RawSse) (s : StreamEncoder) (c : CallStart) (enc : ℕ)
    (fragments : String) : Prop
  | held : s.responsesHeld.contains enc = true → (∀ k, openCall s ≠ some (enc, k)) →
      s.toolItems enc = some ⟨c.id, c.name, fragments⟩ → c.custom = false →
      sentAt out enc = ([], [], "") → Stands out s c enc fragments
  | opened : s.responsesHeld.contains enc = false → openCall s = some (enc, callKind c.custom) →
      s.toolItems enc = some ⟨c.id, c.name, fragments⟩ →
      sentAt out enc = ([itemOf c enc ""], [], fragments) → Stands out s c enc fragments
  | finished : s.responsesHeld.contains enc = false → (∀ k, openCall s ≠ some (enc, k)) →
      s.toolItems enc = none →
      sentAt out enc = ([itemOf c enc ""], [itemOf c enc fragments], fragments) →
      Stands out s c enc fragments

/-- The output index was given to a call. -/
def Owned (before : List IrStreamEvent) (s : StreamEncoder) (e : ℕ) : Prop :=
  ∃ c ∈ startsOf before, s.tools.last c.index = some e

structure Accounted (before : List IrStreamEvent) (out : List RawSse) (s : StreamEncoder) :
    Prop where
  wire : s.wire = .responses
  slotted : Slotted ((startsOf before).map CallStart.index) s.tools
  used_lt : ∀ e ∈ s.tools.used, e < s.nextBlock
  stands : ∀ c ∈ startsOf before, ∀ enc, s.tools.last c.index = some enc →
    Stands out s c enc (fragmentsAt c.index before)
  open_owned : ∀ b, openCall s = some b → Owned before s b.1
  held_owned : ∀ e, s.responsesHeld.contains e = true → Owned before s e
  unowned : ∀ e, ¬ Owned before s e → sentAt out e = ([], [], "")

variable {before : List IrStreamEvent} {out : List RawSse} {s t : StreamEncoder}

/-- A call stands where it stood when its own part of the state is the same. -/
theorem Stands.congr {out' : List RawSse} {c : CallStart} {enc : ℕ} {fragments : String}
    (h : Stands out s c enc fragments)
    (hheld : t.responsesHeld.contains enc = s.responsesHeld.contains enc)
    (hopen : ∀ k, openCall t = some (enc, k) ↔ openCall s = some (enc, k))
    (hitems : t.toolItems enc = s.toolItems enc) (hsent : sentAt out' enc = sentAt out enc) :
    Stands out' t c enc fragments := by
  cases h with
  | held hc ho hi hk hs =>
    exact .held (hheld.trans hc) (fun k hk => ho k ((hopen k).mp hk)) (hitems.trans hi) hk
      (hsent.trans hs)
  | opened hc ho hi hs =>
    exact .opened (hheld.trans hc) ((hopen _).mpr ho) (hitems.trans hi) (hsent.trans hs)
  | finished hc ho hi hs =>
    exact .finished (hheld.trans hc) (fun k hk => ho k ((hopen k).mp hk)) (hitems.trans hi)
      (hsent.trans hs)

theorem Accounted.plain (h : Accounted before out s) {frames : List RawSse}
    (hsilent : Silent frames) (hwire : t.wire = s.wire) (hopen : openCall t = openCall s)
    (hitems : t.toolItems = s.toolItems) (hheld : t.responsesHeld = s.responsesHeld)
    (htools : t.tools = s.tools) (hnext : s.nextBlock ≤ t.nextBlock) :
    Accounted before (out ++ frames) t := by
  have howned : Owned before t = Owned before s := by
    funext e
    simp only [Owned, htools]
  exact
    { wire := hwire.trans h.wire
      slotted := by rw [htools]; exact h.slotted
      used_lt := fun e he => Nat.lt_of_lt_of_le (h.used_lt e (by rwa [← htools])) hnext
      stands := fun c hc enc hlast => by
        rw [htools] at hlast
        exact (h.stands c hc enc hlast).congr (by rw [hheld]) (fun k => by rw [hopen])
          (by rw [hitems]) (hsilent.sentAt_silent enc)
      open_owned := by rw [hopen, howned]; exact h.open_owned
      held_owned := by rw [hheld, howned]; exact h.held_owned
      unowned := fun e he => by
        rw [howned] at he
        rw [hsilent.sentAt_silent]
        exact h.unowned e he }

theorem Accounted.skip (h : Accounted before out s) {ev : IrStreamEvent} (hquiet : isQuiet ev) :
    Accounted (before ++ [ev]) out s := by
  have hstarts := startsOf_quiet before hquiet
  have howned : Owned (before ++ [ev]) s = Owned before s := by
    funext e
    simp only [Owned, hstarts]
  exact
    { wire := h.wire
      slotted := by rw [hstarts]; exact h.slotted
      used_lt := h.used_lt
      stands := fun c hc enc hlast => by
        rw [hstarts] at hc
        rw [fragmentsAt_quiet _ _ hquiet]
        exact h.stands c hc enc hlast
      open_owned := by rw [howned]; exact h.open_owned
      held_owned := by rw [howned]; exact h.held_owned
      unowned := by rw [howned]; exact h.unowned }

theorem Accounted.last_used (h : Accounted before out s) {e : ℕ} (howned : Owned before s e) :
    e ∈ s.tools.used := by
  obtain ⟨c, hc, hlast⟩ := howned
  obtain ⟨enc, _, henc, hused⟩ := h.slotted.slot c.index (List.mem_map_of_mem hc)
  rw [hlast] at henc
  exact Option.some.inj henc ▸ hused

theorem Accounted.next_unowned (h : Accounted before out s) : ¬ Owned before s s.nextBlock :=
  fun howned => Nat.lt_irrefl _ (h.used_lt _ (h.last_used howned))

theorem silent_textDones (s : StreamEncoder) (index : ℕ) (kind : BlockKind) :
    Silent (textDones s index kind) := by
  refine .silent_of_forall fun f hf => ?_
  cases kind with
  | text =>
    obtain ⟨p, _, hp⟩ := List.mem_filterMap.mp hf
    unfold textDone at hp
    simp only at hp
    split at hp
    · cases hp
    · split at hp
      · cases hp
      · obtain rfl := Option.some.inj hp
        exact ⟨rfl, rfl, rfl⟩
  | thinking => cases hf
  | tool => cases hf
  | customTool => cases hf

theorem silent_done {index : ℕ} {item : Value} (h : item.strAt? "type" = some "message" ∨
    item.strAt? "type" = some "reasoning") : Silent [outputItemDone index item] := by
  refine ⟨rfl, ?_, rfl⟩
  have hread : callItemOf? "response.output_item.done" (outputItemDone index item) =
      if item.strAt? "type" = some "function_call" then some ⟨index,
        (item.strAt? "call_id").getD "", (item.strAt? "name").getD "", false,
        (item.strAt? "arguments").getD ""⟩
      else if item.strAt? "type" = some "custom_tool_call" then some ⟨index,
        (item.strAt? "call_id").getD "", (item.strAt? "name").getD "", true,
        (item.strAt? "input").getD ""⟩
      else none := rfl
  have hnone : callItemOf? "response.output_item.done" (outputItemDone index item) = none := by
    rw [hread]
    rcases h with h | h <;> rw [h] <;> rfl
  simp only [doneCalls, List.filterMap_cons, hnone, List.filterMap_nil]

theorem messageItem_type (r : ResponsesSide) (content : List Value) :
    (messageItem r content).strAt? "type" = some "message" := by
  simp only [messageItem, Value.strAt?_insertSome_of_ne _ _ (show "type" ≠ "id" by decide),
    Value.strAt?_insertSome_of_ne _ _ (show "type" ≠ "status" by decide),
    Value.strAt?_insertSome_of_ne _ _ (show "type" ≠ "phase" by decide),
    Value.strAt?_insertSome_of_ne _ _ (show "type" ≠ "agent" by decide)]
  rfl

theorem reasoningItem_type (r : ResponsesSide) (index : ℕ) :
    (reasoningItem r index).strAt? "type" = some "reasoning" := by
  simp only [reasoningItem, Value.strAt?_insertSome_of_ne _ _ (show "type" ≠ "content" by decide)]
  split
  · rw [Value.strAt?, Value.get?_insert_of_ne _ _ (show "type" ≠ "summary" by decide),
      ← Value.strAt?, Value.strAt?_insertSome_of_ne _ _ (show "type" ≠ "status" by decide),
      Value.strAt?_insertSome_of_ne _ _ (show "type" ≠ "id" by decide)]
    rfl
  · rw [Value.strAt?_insertSome_of_ne _ _ (show "type" ≠ "status" by decide),
      Value.strAt?_insertSome_of_ne _ _ (show "type" ≠ "id" by decide)]
    rfl

theorem closeItem_silent (h : openCall s = none) :
    Silent (closeItem s).1 ∧ (closeItem s).2.toolItems = s.toolItems := by
  unfold closeItem
  cases hopen : s.openBlock with
  | none => exact ⟨Sent.nil, rfl⟩
  | some b =>
    obtain ⟨index, kind⟩ := b
    rw [openCall, hopen] at h
    cases kind with
    | text =>
      exact ⟨(silent_textDones s index .text).append (silent_done (Or.inl (messageItem_type _ _))),
        rfl⟩
    | thinking =>
      exact ⟨(silent_textDones s index .thinking).append
        (silent_done (Or.inr (reasoningItem_type _ _))), rfl⟩
    | tool => cases h
    | customTool => cases h

theorem closeItem_call {enc : ℕ} {custom : Bool} {id name args : String}
    (h : openCall s = some (enc, callKind custom)) (hitem : s.toolItems enc = some ⟨id, name, args⟩) :
    Sent (closeItem s).1 [] [⟨enc, id, name, custom, args⟩] [] ∧
      (closeItem s).2.toolItems = Function.update s.toolItems enc none := by
  have hopen : s.openBlock = some (enc, callKind custom) := (Option.filter_eq_some_iff.mp h).1
  unfold closeItem
  rw [hopen]
  cases custom with
  | true =>
    refine ⟨?_, rfl⟩
    have hdone := sent_done s.responses enc true id name args
    simpa [textDones, doneItem, callKind, callItem, hitem] using hdone
  | false =>
    refine ⟨?_, rfl⟩
    have hdone := sent_done s.responses enc false id name args
    simpa [textDones, doneItem, callKind, callItem, hitem] using hdone

theorem closeItem_openCall (s : StreamEncoder) : openCall (closeItem s).2 = none := by
  rw [openCall, closeItem_open]
  rfl

theorem Accounted.close (h : Accounted before out s) :
    Accounted before (out ++ (closeItem s).1) (closeItem s).2 := by
  obtain ⟨r, items, heq⟩ := closeItem_fields s
  cases hcall : openCall s with
  | none =>
    obtain ⟨hsilent, hitems⟩ := closeItem_silent hcall
    have hopen := (closeItem_openCall s).trans hcall.symm
    rw [heq] at hitems hopen ⊢
    exact h.plain hsilent rfl hopen hitems rfl rfl (Nat.le_refl _)
  | some b =>
    obtain ⟨enc, kind⟩ := b
    obtain ⟨c, hc, hlast⟩ := h.open_owned _ hcall
    have hnone := closeItem_openCall s
    have hclosed : Stands out s c enc (fragmentsAt c.index before) := h.stands c hc enc hlast
    cases hclosed with
    | held _ hno => exact absurd hcall (hno kind)
    | finished _ hno => exact absurd hcall (hno kind)
    | opened hheld hopen hitem _ =>
      obtain ⟨hsent, hitems⟩ := closeItem_call hopen hitem
      rw [heq] at hitems hnone ⊢
      change items = _ at hitems
      have hother : ∀ e, enc ≠ e → sentAt (out ++ (closeItem s).1) e = sentAt out e := by
        intro e he
        simp [hsent.sentAt, he]
      exact
        { wire := h.wire
          slotted := h.slotted
          used_lt := h.used_lt
          stands := fun d hd e hdlast => by
            have hstands := h.stands d hd e hdlast
            by_cases he : enc = e
            · subst he
              cases hstands with
              | held _ hno => exact absurd hcall (hno kind)
              | finished _ hno => exact absurd hcall (hno kind)
              | opened hdheld hdopen hditem hdsent =>
                obtain ⟨hsent', _⟩ := closeItem_call hdopen hditem
                refine .finished hdheld (fun k hk => by rw [hnone] at hk; cases hk)
                  (by simp only [hitems, Function.update_self]) ?_
                simp [hsent'.sentAt, hdsent, itemOf]
            · refine hstands.congr rfl (fun k => ?_) ?_ (hother e he)
              · rw [hnone, hopen]
                simp [he]
              · simp only [hitems, Function.update_of_ne (Ne.symm he)]
          open_owned := fun b hb => by rw [hnone] at hb; cases hb
          held_owned := h.held_owned
          unowned := fun e he => by
            have hne : enc ≠ e := by
              rintro rfl
              exact he ⟨c, hc, hlast⟩
            rw [hother e hne]
            exact h.unowned e he }

theorem silent_itemBody (index : ℕ) {kind : BlockKind} (hkind : isCallKind kind = false) :
    Silent [outputItemAdded index (itemBody kind)] := by
  cases kind with
  | text => exact ⟨rfl, rfl, rfl⟩
  | thinking => exact ⟨rfl, rfl, rfl⟩
  | tool => cases hkind
  | customTool => cases hkind

theorem ensureItem_accounted {kind : BlockKind} (hkind : isCallKind kind = false)
    (h : Accounted before out s) (hroom : s.nextBlock < u32Max) :
    Accounted before (out ++ (ensureItem kind s).1) (ensureItem kind s).2 := by
  unfold ensureItem
  by_cases hopens : s.opensKind kind = true
  · rw [if_pos hopens]
    simpa using h
  · have hclose := h.close
    have hnone := closeItem_openCall s
    obtain ⟨r, items, heq⟩ := closeItem_fields s
    rw [if_neg hopens]
    simp only [heq] at hclose hnone ⊢
    rw [← List.append_assoc]
    refine hclose.plain (silent_itemBody _ hkind) rfl ?_ rfl rfl rfl (le_satAdd_one hroom)
    rw [hnone, openCall]
    simp [hkind]

theorem inItem_accounted {send : ℕ → StreamEncoder → List RawSse × StreamEncoder}
    {text : String} (hsend : Sends send text) {kind : BlockKind} (hkind : isCallKind kind = false)
    (h : Accounted before out s) (hroom : s.nextBlock < u32Max) :
    Accounted before (out ++ (inItem kind send s).1) (inItem kind send s).2 := by
  have hensured := ensureItem_accounted hkind h hroom
  obtain ⟨frame, r, heq, hframe⟩ := hsend (ensureItem kind s).2.openIndex (ensureItem kind s).2
  simp only [inItem, heq]
  rw [← List.append_assoc]
  exact hensured.plain hframe.silent rfl rfl rfl rfl rfl (Nat.le_refl _)

/-- The ledger gains a call at the next index. Every other index is left alone. -/
theorem Accounted.gain {c : CallStart} {ev : IrStreamEvent} {frames : List RawSse}
    (h : Accounted before out s) (hev : startOf? ev = some c)
    (hfresh : ∀ d ∈ startsOf before, d.index ≠ c.index)
    (hearly : fragmentsAt c.index before = "") (hroom : s.nextBlock < u32Max)
    (hwire : t.wire = s.wire) (htools : t.tools = s.tools.assign c.index s.nextBlock)
    (hnext : t.nextBlock = satAdd s.nextBlock 1)
    (hheld : ∀ e, e ≠ s.nextBlock → t.responsesHeld.contains e = s.responsesHeld.contains e)
    (hopen : ∀ e, e ≠ s.nextBlock → ∀ k, openCall t = some (e, k) ↔ openCall s = some (e, k))
    (hitems : ∀ e, e ≠ s.nextBlock → t.toolItems e = s.toolItems e)
    (hsent : ∀ e, e ≠ s.nextBlock → sentAt (out ++ frames) e = sentAt out e)
    (hnew : sentAt out s.nextBlock = ([], [], "") → Stands (out ++ frames) t c s.nextBlock "") :
    Accounted (before ++ [ev]) (out ++ frames) t := by
  have hstarts := startsOf_start before hev
  have hlastNew : t.tools.last c.index = some s.nextBlock := by
    rw [htools]
    exact assign_last _ _ _
  have hlastOld : ∀ d ∈ startsOf before, t.tools.last d.index = s.tools.last d.index := by
    intro d hd
    rw [htools, assign_last_of_ne _ _ (hfresh d hd)]
  have hlt : s.nextBlock < t.nextBlock := by
    rw [hnext, satAdd_one_of_lt hroom]
    exact Nat.lt_succ_self _
  have hownedNew : Owned (before ++ [ev]) t s.nextBlock := by
    refine ⟨c, ?_, hlastNew⟩
    rw [hstarts]
    simp
  have hownedOld : ∀ e, Owned before s e → Owned (before ++ [ev]) t e := by
    rintro e ⟨d, hd, hlast⟩
    refine ⟨d, ?_, (hlastOld d hd).trans hlast⟩
    rw [hstarts]
    simp [hd]
  have hne : ∀ e, Owned before s e → e ≠ s.nextBlock := by
    rintro e howned rfl
    exact h.next_unowned howned
  exact
    { wire := hwire.trans h.wire
      slotted := by
        rw [hstarts, htools, List.map_append]
        refine h.slotted.assign ?_ ?_
        · rw [List.mem_map]
          rintro ⟨d, hd, hindex⟩
          exact hfresh d hd hindex
        · exact fun hused => Nat.lt_irrefl _ (h.used_lt _ hused)
      used_lt := fun e he => by
        rw [htools, assign_used, Finset.mem_insert] at he
        rcases he with rfl | he
        · exact hlt
        · exact Nat.lt_trans (h.used_lt e he) hlt
      stands := fun d hd e hlast => by
        rw [fragmentsAt_start _ before hev]
        rw [hstarts, List.mem_append, List.mem_singleton] at hd
        rcases hd with hd | rfl
        · rw [hlastOld d hd] at hlast
          have he := hne e ⟨d, hd, hlast⟩
          exact (h.stands d hd e hlast).congr (hheld e he) (hopen e he) (hitems e he) (hsent e he)
        · obtain rfl : s.nextBlock = e := Option.some.inj (hlastNew.symm.trans hlast)
          rw [hearly]
          exact hnew (h.unowned _ h.next_unowned)
      open_owned := fun b hb => by
        by_cases he : b.1 = s.nextBlock
        · rw [he]
          exact hownedNew
        · exact hownedOld _ (h.open_owned b ((hopen b.1 he b.2).mp hb))
      held_owned := fun e he => by
        by_cases hb : e = s.nextBlock
        · rw [hb]
          exact hownedNew
        · exact hownedOld _ (h.held_owned e (by rwa [← hheld e hb]))
      unowned := fun e he => by
        have hb : e ≠ s.nextBlock := by
          rintro rfl
          exact he hownedNew
        rw [hsent e hb]
        exact h.unowned e fun howned => he (hownedOld e howned) }

theorem Accounted.next_not_open (h : Accounted before out s) (k : BlockKind) :
    openCall s ≠ some (s.nextBlock, k) :=
  fun hopen => h.next_unowned (h.open_owned _ hopen)

theorem Accounted.next_not_held (h : Accounted before out s) :
    s.responsesHeld.contains s.nextBlock = false := by
  cases hc : s.responsesHeld.contains s.nextBlock with
  | false => rfl
  | true => exact absurd (h.held_owned _ hc) h.next_unowned

theorem sentAt_added_of_ne {enc e : ℕ} {custom : Bool} {id name : String} (hne : e ≠ enc) :
    sentAt (out ++ [outputItemAdded enc (callItem custom id name "")]) e = sentAt out e := by
  simp [(sent_added enc custom id name "").sentAt, Ne.symm hne]

theorem sentAt_added {enc : ℕ} {c : CallStart} (hnone : sentAt out enc = ([], [], "")) :
    sentAt (out ++ [outputItemAdded enc (callItem c.custom c.id c.name "")]) enc =
      ([itemOf c enc ""], [], "") := by
  simp [(sent_added enc c.custom c.id c.name "").sentAt, hnone, itemOf]

theorem openCall_of {enc : ℕ} {custom : Bool} (h : t.openBlock = some (enc, callKind custom)) :
    openCall t = some (enc, callKind custom) := by
  rw [openCall, h]
  cases custom <;> rfl

theorem openCall_elsewhere {enc : ℕ} {custom : Bool} (hs : openCall s = none)
    (ht : t.openBlock = some (enc, callKind custom)) (e : ℕ) (he : e ≠ enc) (k : BlockKind) :
    openCall t = some (e, k) ↔ openCall s = some (e, k) := by
  rw [hs, openCall_of ht]
  simp [Ne.symm he]

theorem responsesToolStart_accounted {id name : String} {sig : Option String} {index : ℕ}
    (h : Accounted before out s) (hfresh : ∀ d ∈ startsOf before, d.index ≠ index)
    (hearly : fragmentsAt index before = "") (hroom : s.nextBlock < u32Max) :
    Accounted (before ++ [.toolCallStart id name sig index])
      (out ++ (responsesToolStart id name index s).1) (responsesToolStart id name index s).2 := by
  have halloc := allocTool_block (s := s) index (by rw [h.wire]; decide)
  have hnot := h.next_not_open
  unfold responsesToolStart
  simp only [halloc]
  obtain ⟨r, hpending⟩ := takePendingToolExtra_fields index s.nextBlock { s with
    nextBlock := satAdd s.nextBlock 1
    tools := s.tools.assign index s.nextBlock
    toolIds := Function.update s.toolIds s.nextBlock (some id)
    toolItems := Function.update s.toolItems s.nextBlock (some ⟨id, name, ""⟩) }
  rw [hpending]
  have hgain := fun frames t => @Accounted.gain _ _ _ t ⟨id, name, index, false⟩
    (.toolCallStart id name sig index) frames h rfl hfresh hearly hroom
  split
  · refine hgain [] _ rfl rfl rfl ?_ (fun e _ k => Iff.rfl) ?_ (fun e _ => by simp) ?_
    · intro e he
      rw [Std.TreeMap.contains_insert]
      simp [Ne.symm he]
    · intro e he
      simp only [Function.update_of_ne he]
    · intro hnone
      exact .held (by simp) hnot (by simp) rfl (by simpa using hnone)
  · rename_i hother
    -- a call that is open would be at another index, so none is
    have hnone : openCall s = none := by
      cases hcall : openCall s with
      | none => rfl
      | some b =>
        obtain ⟨hopen, hkind⟩ := Option.filter_eq_some_iff.mp hcall
        refine absurd ?_ hother
        have hne : b.1 ≠ s.nextBlock := fun heq => hnot b.2 (by rw [hcall, ← heq])
        simp [hopen, hkind, hne]
    obtain ⟨hsilent, hkeep⟩ := closeItem_silent (s := { s with
      nextBlock := satAdd s.nextBlock 1
      tools := s.tools.assign index s.nextBlock
      toolIds := Function.update s.toolIds s.nextBlock (some id)
      toolItems := Function.update s.toolItems s.nextBlock (some ⟨id, name, ""⟩)
      responses := r }) hnone
    obtain ⟨r', items, heq⟩ := closeItem_fields { s with
      nextBlock := satAdd s.nextBlock 1
      tools := s.tools.assign index s.nextBlock
      toolIds := Function.update s.toolIds s.nextBlock (some id)
      toolItems := Function.update s.toolItems s.nextBlock (some ⟨id, name, ""⟩)
      responses := r }
    rw [heq] at hkeep ⊢
    change items = Function.update s.toolItems s.nextBlock (some ⟨id, name, ""⟩) at hkeep
    subst hkeep
    refine hgain _ _ rfl rfl rfl (fun e _ => rfl)
      (@openCall_elsewhere _ _ _ false hnone rfl) ?_ ?_ ?_
    · intro e he
      simp only [Function.update_of_ne he]
    · intro e he
      rw [← List.append_assoc]
      exact (@sentAt_added_of_ne _ _ _ false _ _ he).trans (hsilent.sentAt_silent e)
    · intro hempty
      refine .opened h.next_not_held (openCall_of rfl) (by simp) ?_
      rw [← List.append_assoc]
      exact sentAt_added (c := ⟨id, name, index, false⟩) ((hsilent.sentAt_silent _).trans hempty)

theorem closeItem_alloc (s : StreamEncoder) (next : ℕ) (tools : ToolSlots) :
    closeItem { s with nextBlock := next, tools := tools } =
      ((closeItem s).1, { (closeItem s).2 with nextBlock := next, tools := tools }) := by
  obtain ⟨_, _, _, _, _, _ | ⟨_, _ | _ | _ | _⟩, _⟩ := s <;> rfl

theorem responsesCustomStart_accounted {id name : String} {index : ℕ}
    (h : Accounted before out s) (hfresh : ∀ d ∈ startsOf before, d.index ≠ index)
    (hearly : fragmentsAt index before = "") (hroom : s.nextBlock < u32Max) :
    Accounted (before ++ [.customToolCallStart id name index])
      (out ++ (responsesCustomStart id name index s).1)
      (responsesCustomStart id name index s).2 := by
  have halloc := allocTool_block (s := s) index (by rw [h.wire]; decide)
  have hclose := h.close
  have hnone := closeItem_openCall s
  obtain ⟨r, items, heq⟩ := closeItem_fields s
  unfold responsesCustomStart
  simp only [halloc, closeItem_alloc]
  rw [heq] at hclose hnone ⊢
  obtain ⟨r', hpending⟩ := takePendingToolExtra_fields index s.nextBlock { s with
    nextBlock := satAdd s.nextBlock 1
    tools := s.tools.assign index s.nextBlock
    openBlock := none
    responses := r
    toolItems := Function.update items s.nextBlock (some ⟨id, name, ""⟩) }
  simp only [hpending]
  rw [← List.append_assoc]
  refine hclose.gain (c := ⟨id, name, index, true⟩) rfl hfresh hearly hroom rfl rfl rfl
    (fun e _ => rfl) (@openCall_elsewhere _ _ _ true hnone rfl) ?_
    (fun e he => @sentAt_added_of_ne _ _ _ true _ _ he) ?_
  · intro e he
    simp only [Function.update_of_ne he]
  · intro hempty
    exact .opened h.next_not_held (openCall_of rfl) (by simp)
      (sentAt_added (c := ⟨id, name, index, true⟩) hempty)

theorem appendToolItem_items (enc : ℕ) (delta : String) (s : StreamEncoder) (e : ℕ) :
    (appendToolItem enc delta s).toolItems e =
      if e = enc then (s.toolItems enc).map fun t => { t with args := t.args ++ delta }
      else s.toolItems e := by
  unfold appendToolItem
  by_cases he : e = enc
  · subst he
    cases hitem : s.toolItems e with
    | none => simp [hitem]
    | some t => simp
  · cases s.toolItems enc with
    | none => simp [he]
    | some t => simp [he]

/-- A fragment with text comes while its call has a buffer. -/
def Lands (s : StreamEncoder) (ev : IrStreamEvent) : Prop :=
  ∀ f ∈ fragmentOf? ev, f.text = "" ∨ (s.toolItems (toolEnc f.index s).1).isSome = true

instance (s : StreamEncoder) (ev : IrStreamEvent) : Decidable (Lands s ev) :=
  inferInstanceAs (Decidable (∀ f ∈ fragmentOf? ev, _ ∨ _))

/-- The ledger takes a fragment: it is buffered, and sent unless the call is held. -/
theorem Accounted.extend {ev : IrStreamEvent} {f : Fragment} {frames : List RawSse}
    {tools : ToolSlots} {c : CallStart} {enc : ℕ} (h : Accounted before out s)
    (hf : fragmentOf? ev = some f) (hc : c ∈ startsOf before) (hindex : c.index = f.index)
    (hinj : ∀ d ∈ startsOf before, d.index = c.index → d = c)
    (hlast : s.tools.last c.index = some enc)
    (hslotted : Slotted ((startsOf before).map CallStart.index) tools)
    (hkeep : tools.last = s.tools.last) (hused : tools.used = s.tools.used)
    (hland : f.text = "" ∨ (s.toolItems enc).isSome = true)
    (hframes : if s.responsesHeld.contains enc = true ∧ c.custom = false then frames = []
      else Sent frames [] [] [(enc, f.text)]) :
    Accounted (before ++ [ev]) (out ++ frames)
      (appendToolItem enc f.text { s with tools := tools }) := by
  obtain ⟨items, happend⟩ := appendToolItem_fields enc f.text { s with tools := tools }
  have hitems := appendToolItem_items enc f.text { s with tools := tools }
  have hstarts := startsOf_fragment before hf
  have howned : Owned (before ++ [ev]) { s with tools := tools, toolItems := items } =
      Owned before s := by
    funext e
    simp only [Owned, hstarts, hkeep]
  have hother : ∀ e, e ≠ enc → sentAt (out ++ frames) e = sentAt out e := by
    intro e he
    split at hframes
    · simp [hframes]
    · simp [hframes.sentAt, Ne.symm he]
  rw [happend] at hitems ⊢
  change ∀ e, items e = if e = enc then (s.toolItems enc).map fun t => { t with
    args := t.args ++ f.text } else s.toolItems e at hitems
  exact
    { wire := h.wire
      slotted := by rw [hstarts]; exact hslotted
      used_lt := by simp only [hused]; exact h.used_lt
      stands := fun d hd e hdlast => by
        rw [hstarts] at hd
        simp only [hkeep] at hdlast
        rw [fragmentsAt_fragment _ before hf]
        have hstands := h.stands d hd e hdlast
        by_cases hsame : d.index = c.index
        · obtain rfl := hinj d hd hsame
          obtain rfl : e = enc := Option.some.inj (hdlast.symm.trans hlast)
          rw [if_pos hindex.symm]
          cases hstands with
          | held hheld hopen hitem hkind hsent =>
            rw [if_pos ⟨hheld, hkind⟩] at hframes
            refine .held hheld hopen ?_ hkind (by simpa [hframes] using hsent)
            simp [hitems, hitem]
          | opened hheld hopen hitem hsent =>
            rw [if_neg fun hboth => by rw [hheld] at hboth; cases hboth.1] at hframes
            refine .opened hheld hopen (by simp [hitems, hitem]) ?_
            simp [hframes.sentAt, hsent]
          | finished hheld hopen hitem hsent =>
            rw [if_neg fun hboth => by rw [hheld] at hboth; cases hboth.1] at hframes
            have htext : f.text = "" := hland.resolve_right (by simp [hitem])
            refine .finished hheld hopen (by simp [hitems, hitem]) ?_
            simp [hframes.sentAt, hsent, htext]
        · have hne : e ≠ enc := by
            rintro rfl
            exact hsame (h.slotted.apart _ (List.mem_map_of_mem hd) _ (List.mem_map_of_mem hc)
              (hdlast.trans hlast.symm))
          rw [if_neg fun heq => hsame (heq.symm.trans hindex.symm), String.append_empty]
          exact hstands.congr rfl (fun _ => Iff.rfl) (by simp [hitems, hne]) (hother e hne)
      open_owned := by rw [howned]; exact h.open_owned
      held_owned := by rw [howned]; exact h.held_owned
      unowned := fun e he => by
        rw [howned] at he
        have hne : e ≠ enc := by
          rintro rfl
          exact he ⟨c, hc, hlast⟩
        rw [hother e hne]
        exact h.unowned e he }

variable {evs after : List IrStreamEvent} {ev : IrStreamEvent}

theorem Accounted.routed (h : Accounted before out s) (hwell : CallsWellFormed evs)
    (hevs : evs = before ++ ev :: after) {f : Fragment} (hf : fragmentOf? ev = some f) :
    ∃ c ∈ startsOf before, c.index = f.index ∧ c.custom = f.custom ∧
      ∃ enc tools, s.tools.last c.index = some enc ∧
        toolEnc f.index s = (enc, { s with tools := tools }) ∧
        Slotted ((startsOf before).map CallStart.index) tools ∧ tools.last = s.tools.last ∧
        tools.used = s.tools.used := by
  obtain ⟨c, hc, hindex, hcustom⟩ := hwell.found hevs hf
  obtain ⟨enc, _, hlast, _⟩ := h.slotted.slot c.index (List.mem_map_of_mem hc)
  obtain ⟨tools, hroute, hslotted, hkeep, hused, _⟩ :=
    h.slotted.route (List.mem_map_of_mem hc) hlast
  exact ⟨c, hc, hindex, hcustom, enc, tools, hlast, hindex ▸ hroute, hslotted, hkeep, hused⟩

theorem responsesToolArg_accounted {delta : String} {index : ℕ} (h : Accounted before out s)
    (hwell : CallsWellFormed evs) (hevs : evs = before ++ .toolCallArgDelta delta index :: after)
    (hland : Lands s (.toolCallArgDelta delta index)) :
    Accounted (before ++ [.toolCallArgDelta delta index])
      (out ++ (responsesToolArg delta index s).1) (responsesToolArg delta index s).2 := by
  obtain ⟨c, hc, hindex, hcustom, enc, tools, hlast, hroute, hslotted, hkeep, hused⟩ :=
    h.routed hwell hevs (f := ⟨index, false, delta⟩) rfl
  have hinj : ∀ d ∈ startsOf before, d.index = c.index → d = c := fun d hd heq =>
    hwell.index_inj hevs hd hc heq
  have hroom := hland _ rfl
  simp only at hroute hroom
  rw [hroute] at hroom
  have hextend := fun frames => @Accounted.extend _ _ _ (.toolCallArgDelta delta index)
    ⟨index, false, delta⟩ frames _ _ _ h rfl hc hindex hinj hlast hslotted hkeep hused
    hroom
  obtain ⟨items, happend⟩ := appendToolItem_fields enc delta { s with tools := tools }
  unfold responsesToolArg
  simp only [hroute, happend] at hextend ⊢
  split
  · rename_i hheld
    exact hextend [] (by rw [if_pos ⟨hheld, hcustom⟩])
  · rename_i hheld
    refine hextend _ ?_
    rw [if_neg fun hboth => hheld hboth.1]
    exact sent_delta rfl (by decide) (by decide) enc _ delta

theorem responsesCustomInput_accounted {delta : String} {index : ℕ} (h : Accounted before out s)
    (hwell : CallsWellFormed evs)
    (hevs : evs = before ++ .customToolCallInputDelta delta index :: after)
    (hland : Lands s (.customToolCallInputDelta delta index)) :
    Accounted (before ++ [.customToolCallInputDelta delta index])
      (out ++ (responsesCustomInput delta index s).1) (responsesCustomInput delta index s).2 := by
  obtain ⟨c, hc, hindex, hcustom, enc, tools, hlast, hroute, hslotted, hkeep, hused⟩ :=
    h.routed hwell hevs (f := ⟨index, true, delta⟩) rfl
  have hinj : ∀ d ∈ startsOf before, d.index = c.index → d = c := fun d hd heq =>
    hwell.index_inj hevs hd hc heq
  have hroom := hland _ rfl
  simp only at hroute hroom
  rw [hroute] at hroom
  unfold responsesCustomInput
  simp only [hroute]
  refine h.extend (f := ⟨index, true, delta⟩) rfl hc hindex hinj hlast hslotted hkeep hused hroom ?_
  rw [if_neg fun hboth => by rw [hcustom] at hboth; cases hboth.2]
  exact sent_delta rfl (by decide) (by decide) enc _ delta

variable (sj : SerdeJson)

theorem responsesEvent_accounted (hwell : CallsWellFormed evs) (hevs : evs = before ++ ev :: after)
    (h : Accounted before out s) (hwired : isWired .responses ev = true)
    (hroom : s.nextBlock < u32Max) (hland : Lands s ev) :
    ∃ frames t, responsesEvent sj ev s = .ok (frames, t) ∧
      Accounted (before ++ [ev]) (out ++ frames) t := by
  have sent : ∀ {send : ℕ → StreamEncoder → List RawSse × StreamEncoder} {text : String}
      {kind : BlockKind}, isCallKind kind = false → Sends send text → isQuiet ev →
      ∃ frames t, Except.ok (ε := MapError) (inItem kind send s) = .ok (frames, t) ∧
        Accounted (before ++ [ev]) (out ++ frames) t :=
    fun hkind hsend hquiet =>
      ⟨_, _, rfl, (inItem_accounted hsend hkind h hroom).skip hquiet⟩
  have plain : ∀ {frames : List RawSse} {t : StreamEncoder}, isQuiet ev → Silent frames →
      t.wire = s.wire → openCall t = openCall s → t.toolItems = s.toolItems →
      t.responsesHeld = s.responsesHeld → t.tools = s.tools → t.nextBlock = s.nextBlock →
      Accounted (before ++ [ev]) (out ++ frames) t :=
    fun hquiet hsilent hwire hopen hitems hheld htools hnext =>
      (h.plain hsilent hwire hopen hitems hheld htools (Nat.le_of_eq hnext.symm)).skip hquiet
  have quiet : isQuiet ev → Accounted (before ++ [ev]) (out ++ []) s := fun hquiet =>
    plain hquiet Sent.nil rfl rfl rfl rfl rfl rfl
  cases ev with
  | textDelta text => exact sent rfl (sends_text text) (isQuiet_of_none rfl rfl)
  | refusalDelta text =>
    exact sent rfl (sends_refusal text) (isQuiet_of_none rfl rfl)
  | reasoningDelta text =>
    exact sent rfl (sends_reasoning text) (isQuiet_of_none rfl rfl)
  | reasoningSignature signature =>
    exact sent rfl (sends_signature signature) (isQuiet_of_none rfl rfl)
  | annotationAdded ann =>
    exact sent rfl ( sends_annotation ann) (isQuiet_of_none rfl rfl)
  | imageDelta mediaType data =>
    exact sent rfl (sends_image mediaType data) (isQuiet_of_none rfl rfl)
  | logprobs content refusal =>
    exact sent rfl (sends_logprobs content refusal) (isQuiet_of_none rfl rfl)
  | toolCallStart id name sig index =>
    exact ⟨_, _, rfl, responsesToolStart_accounted h (hwell.fresh hevs rfl)
      (hwell.no_early_fragment hevs rfl) hroom⟩
  | customToolCallStart id name index =>
    exact ⟨_, _, rfl, responsesCustomStart_accounted h (hwell.fresh hevs rfl)
      (hwell.no_early_fragment hevs rfl) hroom⟩
  | toolCallArgDelta delta index =>
    exact ⟨_, _, rfl, responsesToolArg_accounted h hwell hevs hland⟩
  | customToolCallInputDelta delta index =>
    exact ⟨_, _, rfl, responsesCustomInput_accounted h hwell hevs hland⟩
  | toolCallEnd => exact ⟨_, _, rfl, h.close.skip (isQuiet_of_none rfl rfl)⟩
  | audioDelta data =>
    exact ⟨_, _, rfl, plain (isQuiet_of_none rfl rfl) ⟨rfl, rfl, rfl⟩ rfl rfl rfl rfl rfl rfl⟩
  | audioTranscriptDelta text =>
    exact ⟨_, _, rfl, plain (isQuiet_of_none rfl rfl) ⟨rfl, rfl, rfl⟩ rfl rfl rfl rfl rfl rfl⟩
  | finishReason reason vendor =>
    exact ⟨_, _, rfl, plain (isQuiet_of_none rfl rfl) Sent.nil rfl rfl rfl rfl rfl rfl⟩
  | usage u geo =>
    exact ⟨_, _, rfl, plain (isQuiet_of_none rfl rfl) Sent.nil rfl rfl rfl rfl rfl rfl⟩
  | created unix => exact ⟨_, _, rfl, quiet (isQuiet_of_none rfl rfl)⟩
  | serviceTier tier => exact ⟨_, _, rfl, quiet (isQuiet_of_none rfl rfl)⟩
  | metadata entries => exact ⟨_, _, rfl, quiet (isQuiet_of_none rfl rfl)⟩
  | moderation input output => exact ⟨_, _, rfl, quiet (isQuiet_of_none rfl rfl)⟩
  | diagnostics reason => cases hwired
  | container value => cases hwired
  | contextManagement value => cases hwired
  | stopSequence text => cases hwired
  | searchEntryPoint rendered => cases hwired
  | protocol itemType payload => cases hwired
  | unknown event raw => cases hwired
  | done => cases hwired

theorem silent_startResponses (s : StreamEncoder) : Silent (startResponses s).1 := by
  unfold startResponses
  cases s.started with
  | true => exact Sent.nil
  | false => exact ⟨rfl, rfl, rfl⟩

theorem pushResponses_accounted (hwell : CallsWellFormed evs)
    (hevs : evs = before ++ ev :: after) (h : Accounted before out s)
    (hwired : isWired .responses ev = true) (hroom : s.nextBlock < u32Max) (hland : Lands s ev) :
    ∃ frames t, pushResponses sj s ev = .ok (frames, t) ∧
      Accounted (before ++ [ev]) (out ++ frames) t := by
  obtain ⟨created, tier, r, hnote⟩ := noteResponsesEvent_fields ev s
  have hland' : ∀ u : StreamEncoder, u.wire = s.wire → u.tools = s.tools →
      u.nextBlock = s.nextBlock → u.toolItems = s.toolItems → Lands u ev := by
    intro u hwire htools hnext hitems f hf
    rw [toolEnc_fst_congr hwire htools hnext, hitems]
    exact hland f hf
  unfold pushResponses
  simp only [hnote]
  cases hside : isResponsesSidecar ev with
  | true =>
    simp only [if_true, sidecar_event sj hside, Except.map]
    have hquiet : isQuiet ev := by
      cases ev <;> first | exact isQuiet_of_none rfl rfl | cases hside
    have hnoted := h.plain (t := { s with
      createdAt := created
      serviceTier := tier
      responses := r }) Sent.nil rfl rfl rfl rfl rfl (Nat.le_refl _)
    exact ⟨_, _, rfl, hnoted.skip hquiet⟩
  | false =>
    simp only [Bool.false_eq_true, if_false, startResponses_fields]
    have hstart := h.plain (silent_startResponses { s with
      createdAt := created
      serviceTier := tier
      responses := r }) (t := { s with
      started := true
      createdAt := created
      serviceTier := tier
      responses := r }) rfl rfl rfl rfl rfl (Nat.le_refl _)
    obtain ⟨frames, t, hok, hacc⟩ := responsesEvent_accounted sj hwell hevs hstart hwired hroom
      (hland' _ rfl rfl rfl rfl)
    rw [hok]
    exact ⟨_, t, rfl, by rw [← List.append_assoc]; exact hacc⟩

/-- What a client reads: for each call one item at an output index of its own,
whose added item, fragments and done item agree with the call's fragments, and
no other call. -/
def Delivered (evs : List IrStreamEvent) (frames : List RawSse) : Prop :=
  ∃ place : ℕ → ℕ,
    (∀ c ∈ startsOf evs, ∀ d ∈ startsOf evs, place c.index = place d.index → c.index = d.index) ∧
    (∀ c ∈ startsOf evs, sentAt frames (place c.index) =
      ([itemOf c (place c.index) ""], [itemOf c (place c.index) (fragmentsAt c.index evs)],
        fragmentsAt c.index evs)) ∧
    ∀ e, (∀ c ∈ startsOf evs, place c.index ≠ e) → sentAt frames e = ([], [], "")

theorem Delivered.append_silent {frames more : List RawSse} (h : Delivered evs frames)
    (hsilent : Silent more) : Delivered evs (frames ++ more) := by
  obtain ⟨place, hinj, hcalls, hrest⟩ := h
  refine ⟨place, hinj, fun c hc => ?_, fun e he => ?_⟩
  · rw [hsilent.sentAt_silent]
    exact hcalls c hc
  · rw [hsilent.sentAt_silent]
    exact hrest e he

theorem Delivered.skip {frames : List RawSse} (h : Delivered evs frames) (hquiet : isQuiet ev) :
    Delivered (evs ++ [ev]) frames := by
  unfold Delivered
  simp only [startsOf_quiet evs hquiet, fragmentsAt_quiet _ evs hquiet]
  exact h

theorem heldCallFrames_sent {e : ℕ} {id name args : String} {t : StreamEncoder}
    (h : t.toolItems e = some ⟨id, name, args⟩) :
    Sent (heldCallFrames e t).1 [⟨e, id, name, false, ""⟩] [⟨e, id, name, false, args⟩]
        (if args.isEmpty then [] else [(e, args)]) ∧
      (heldCallFrames e t).2.toolItems = Function.update t.toolItems e none := by
  unfold heldCallFrames
  rw [h]
  refine ⟨?_, rfl⟩
  have hadded := sent_added e false id name ""
  have hdone := sent_done t.responses e false id name args
  have hdelta := @sent_delta "response.function_call_arguments.delta" rfl (by decide)
    (by decide) e id args
  by_cases hempty : args.isEmpty = true
  · simp only [if_pos hempty]
    exact hadded.append hdone
  · simp only [if_neg hempty]
    exact hadded.append (hdelta.append hdone)

/-- A call before or after its part of the flush. -/
structure Flushing (before : List IrStreamEvent) (s : StreamEncoder) (rest : List ℕ)
    (out : List RawSse) (t : StreamEncoder) : Prop where
  nodup : rest.Nodup
  owned : ∀ e ∈ rest, Owned before s e
  waiting : ∀ c ∈ startsOf before, ∀ enc, s.tools.last c.index = some enc → enc ∈ rest →
    c.custom = false ∧ t.toolItems enc = some ⟨c.id, c.name, fragmentsAt c.index before⟩ ∧
      sentAt out enc = ([], [], "")
  sent : ∀ c ∈ startsOf before, ∀ enc, s.tools.last c.index = some enc → enc ∉ rest →
    sentAt out enc = ([itemOf c enc ""], [itemOf c enc (fragmentsAt c.index before)],
      fragmentsAt c.index before)
  unowned : ∀ e, ¬ Owned before s e → sentAt out e = ([], [], "")

theorem Flushing.step {e : ℕ} {rest : List ℕ} (h : Flushing before s (e :: rest) out t) :
    Flushing before s rest (out ++ (heldCallFrames e t).1) (heldCallFrames e t).2 := by
  obtain ⟨he, hnodup⟩ := List.nodup_cons.mp h.nodup
  obtain ⟨c, hc, hlast⟩ := h.owned e (by simp)
  obtain ⟨_, hitem, _⟩ := h.waiting c hc e hlast (by simp)
  obtain ⟨hsent, hitems⟩ := heldCallFrames_sent hitem
  have hother : ∀ d, d ≠ e → sentAt (out ++ (heldCallFrames e t).1) d = sentAt out d := by
    intro d hd
    rw [hsent.sentAt]
    split <;> simp [Ne.symm hd]
  exact
    { nodup := hnodup
      owned := fun d hd => h.owned d (by simp [hd])
      waiting := fun d hd enc hdlast hmem => by
        obtain ⟨hkind, hwait, hnone⟩ := h.waiting d hd enc hdlast (by simp [hmem])
        have hne : enc ≠ e := by
          rintro rfl
          exact he hmem
        rw [hitems, Function.update_of_ne hne, hother enc hne]
        exact ⟨hkind, hwait, hnone⟩
      sent := fun d hd enc hdlast hmem => by
        by_cases hne : enc = e
        · subst hne
          obtain ⟨hkind, hwait, hnone⟩ := h.waiting d hd enc hdlast (by simp)
          rw [(heldCallFrames_sent hwait).1.sentAt, hnone]
          cases hfrags : (fragmentsAt d.index before).isEmpty with
          | true => simp [itemOf, hkind, String.isEmpty_iff.mp hfrags]
          | false => simp [itemOf, hkind]
        · rw [hother enc hne]
          exact h.sent d hd enc hdlast (by simp [hne, hmem])
      unowned := fun d hd => by
        have hne : d ≠ e := by
          rintro rfl
          exact hd ⟨c, hc, hlast⟩
        rw [hother d hne]
        exact h.unowned d hd }

theorem mem_heldKeys {e : ℕ} :
    e ∈ s.responsesHeld.toList.map Prod.fst ↔ s.responsesHeld.contains e = true := by
  rw [Std.TreeMap.contains_iff_mem, ← Std.TreeMap.isSome_getElem?_iff_mem, List.mem_map]
  constructor
  · rintro ⟨⟨k, u⟩, hmem, rfl⟩
    rw [mem_toList_iff_getElem?_eq_some.mp hmem]
    rfl
  · intro h
    obtain ⟨u, hu⟩ := Option.isSome_iff_exists.mp h
    exact ⟨(e, u), mem_toList_iff_getElem?_eq_some.mpr hu, rfl⟩

theorem flushResponsesHeld_delivered (h : Accounted before out s) (hopen : openCall s = none) :
    Delivered before (out ++ (flushResponsesHeld s).1) := by
  have hinit : Flushing before s (s.responsesHeld.toList.map Prod.fst) out
      { s with responsesHeld := ∅ } :=
    { nodup := List.pairwise_map.mpr
        ((strictBy_toList s.responsesHeld).imp fun hlt => Nat.ne_of_lt hlt)
      owned := fun e he => h.held_owned e (mem_heldKeys.mp he)
      waiting := fun c hc enc hlast hmem => by
        have hheld := mem_heldKeys.mp hmem
        cases h.stands c hc enc hlast with
        | held _ _ hitem hkind hsent => exact ⟨hkind, hitem, hsent⟩
        | opened hnot => rw [hheld] at hnot; cases hnot
        | finished hnot => rw [hheld] at hnot; cases hnot
      sent := fun c hc enc hlast hmem => by
        cases h.stands c hc enc hlast with
        | held hheld => exact absurd (mem_heldKeys.mpr hheld) hmem
        | opened _ hcall => rw [hopen] at hcall; cases hcall
        | finished _ _ _ hsent => exact hsent
      unowned := h.unowned }
  have hflush := emitEach_invariant heldCallFrames (Flushing before s)
    (fun _ _ _ _ hstep => hstep.step) _ _ _ hinit
  refine ⟨fun i => (s.tools.last i).getD 0, fun c hc d hd heq => ?_, fun c hc => ?_, fun e he => ?_⟩
  · obtain ⟨enc, _, hlast, _⟩ := h.slotted.slot c.index (List.mem_map_of_mem hc)
    obtain ⟨enc', _, hlast', _⟩ := h.slotted.slot d.index (List.mem_map_of_mem hd)
    refine h.slotted.apart _ (List.mem_map_of_mem hc) _ (List.mem_map_of_mem hd) ?_
    simp only [hlast, hlast', Option.getD_some] at heq
    rw [hlast, hlast', heq]
  · obtain ⟨enc, _, hlast, _⟩ := h.slotted.slot c.index (List.mem_map_of_mem hc)
    simp only [hlast, Option.getD_some]
    exact hflush.sent c hc enc hlast (by simp)
  · refine hflush.unowned e ?_
    rintro ⟨c, hc, hlast⟩
    exact he c hc (by simp only [hlast, Option.getD_some])

theorem silent_terminal (s : StreamEncoder) : Silent [responsesTerminalFrame s] := by
  have hevent : (responsesTerminalFrame s).event =
      some (responsesTerminal (s.finish.getD "stop")).1 := rfl
  refine ⟨?_, ?_, ?_⟩ <;>
    rcases responsesTerminal_event (s.finish.getD "stop") with h | h | h <;>
    rw [h] at hevent <;>
    simp [addedCalls, doneCalls, callDeltas, callItemOf?, callDeltaOf?, hevent, isCallDelta]

theorem finishResponses_delivered (h : Accounted before out s) :
    Delivered before (out ++ (finishResponses s).1) := by
  have hflush := flushResponsesHeld_delivered h.close (closeItem_openCall s)
  simpa [finishResponses] using hflush.append_silent (silent_terminal (flushResponsesHeld (closeItem s).2).2)

theorem toolEnc_finished (index : ℕ) (s : StreamEncoder) :
    (toolEnc index s).2.finished = s.finished := by
  unfold toolEnc allocTool
  split
  · rfl
  · split
    · rfl
    · split <;> rfl

theorem ensureItem_finished (kind : BlockKind) (s : StreamEncoder) :
    (ensureItem kind s).2.finished = s.finished := by
  unfold ensureItem
  split
  · rfl
  · exact (closeItem_kept s).finished

theorem inItem_finished {send : ℕ → StreamEncoder → List RawSse × StreamEncoder} {text : String}
    (hsend : Sends send text) (kind : BlockKind) (s : StreamEncoder) :
    (inItem kind send s).2.finished = s.finished := by
  obtain ⟨frame, r, heq, _⟩ := hsend (ensureItem kind s).2.openIndex (ensureItem kind s).2
  simp only [inItem, heq]
  exact ensureItem_finished kind s

theorem responsesToolStart_finished (id name : String) (index : ℕ) (s : StreamEncoder) :
    (responsesToolStart id name index s).2.finished = s.finished := by
  have halloc : (allocTool index s).2.finished = s.finished := by
    unfold allocTool
    split <;> rfl
  unfold responsesToolStart
  simp only
  obtain ⟨r, hpending⟩ := takePendingToolExtra_fields index (allocTool index s).1
    { (allocTool index s).2 with
      toolIds := Function.update (allocTool index s).2.toolIds (allocTool index s).1 (some id)
      toolItems := Function.update (allocTool index s).2.toolItems (allocTool index s).1
        (some ⟨id, name, ""⟩) }
  rw [hpending]
  split
  · exact halloc
  · exact (closeItem_kept _).finished.trans halloc

theorem responsesCustomStart_finished (id name : String) (index : ℕ) (s : StreamEncoder) :
    (responsesCustomStart id name index s).2.finished = s.finished := by
  have halloc : (allocTool index s).2.finished = s.finished := by
    unfold allocTool
    split <;> rfl
  unfold responsesCustomStart
  simp only
  obtain ⟨r, hpending⟩ := takePendingToolExtra_fields index (allocTool index s).1
    { (closeItem (allocTool index s).2).2 with
      toolItems := Function.update (closeItem (allocTool index s).2).2.toolItems
        (allocTool index s).1 (some ⟨id, name, ""⟩) }
  rw [hpending]
  exact (closeItem_kept _).finished.trans halloc

theorem appendToolItem_finished (enc : ℕ) (delta : String) (s : StreamEncoder) :
    (appendToolItem enc delta s).finished = s.finished := by
  obtain ⟨items, heq⟩ := appendToolItem_fields enc delta s
  rw [heq]

theorem responsesToolArg_finished (delta : String) (index : ℕ) (s : StreamEncoder) :
    (responsesToolArg delta index s).2.finished = s.finished := by
  unfold responsesToolArg
  simp only
  split
  · exact (appendToolItem_finished _ _ _).trans (toolEnc_finished index s)
  · exact (appendToolItem_finished _ _ _).trans (toolEnc_finished index s)

theorem responsesCustomInput_finished (delta : String) (index : ℕ) (s : StreamEncoder) :
    (responsesCustomInput delta index s).2.finished = s.finished :=
  (appendToolItem_finished _ _ _).trans (toolEnc_finished index s)

theorem responsesEvent_finished {r : List RawSse × StreamEncoder}
    (hwired : isWired .responses ev = true) (h : responsesEvent sj ev s = .ok r) :
    r.2.finished = s.finished := by
  cases ev with
  | textDelta text => cases h; exact inItem_finished (sends_text text) .text s
  | refusalDelta text => cases h; exact inItem_finished (sends_refusal text) .text s
  | reasoningDelta text => cases h; exact inItem_finished (sends_reasoning text) .thinking s
  | reasoningSignature signature =>
    cases h; exact inItem_finished (sends_signature signature) .thinking s
  | annotationAdded ann => cases h; exact inItem_finished ( sends_annotation ann) .text s
  | imageDelta mediaType data => cases h; exact inItem_finished (sends_image mediaType data) .text s
  | logprobs content refusal =>
    cases h; exact inItem_finished (sends_logprobs content refusal) .text s
  | toolCallStart id name sig index => cases h; exact responsesToolStart_finished id name index s
  | customToolCallStart id name index => cases h; exact responsesCustomStart_finished id name index s
  | toolCallArgDelta delta index => cases h; exact responsesToolArg_finished delta index s
  | customToolCallInputDelta delta index => cases h; exact responsesCustomInput_finished delta index s
  | toolCallEnd => cases h; exact (closeItem_kept s).finished
  | diagnostics reason => cases hwired
  | container value => cases hwired
  | contextManagement value => cases hwired
  | stopSequence text => cases hwired
  | searchEntryPoint rendered => cases hwired
  | protocol itemType payload => cases hwired
  | unknown event raw => cases hwired
  | done => cases hwired
  | _ => cases h; rfl

theorem pushResponses_finished {r : List RawSse × StreamEncoder}
    (hwired : isWired .responses ev = true) (h : pushResponses sj s ev = .ok r) :
    r.2.finished = s.finished := by
  obtain ⟨created, tier, side, hnote⟩ := noteResponsesEvent_fields ev s
  unfold pushResponses at h
  simp only [hnote] at h
  split at h
  · obtain ⟨q, hq, rfl⟩ := map_eq_ok h
    have hkept := responsesEvent_finished sj hwired hq
    exact hkept
  · rw [startResponses_fields] at h
    obtain ⟨q, hq, rfl⟩ := map_eq_ok h
    have hkept := responsesEvent_finished sj hwired hq
    exact hkept

/-- Where a step of the Responses encoder keeps every call whole: after the end
nothing of a call comes; before it, no text comes for a call whose item is
done, and the output indexes have not run out. -/
def ResponsesCallSafe (s : StreamEncoder) (ev : IrStreamEvent) : Prop :=
  (s.finished = true → isQuiet ev) ∧ (s.finished = false → Lands s ev ∧ s.nextBlock < u32Max)

instance (s : StreamEncoder) (ev : IrStreamEvent) : Decidable (ResponsesCallSafe s ev) :=
  inferInstanceAs (Decidable ((_ → isQuiet ev) ∧ (_ → Lands s ev ∧ _)))

/-- The ledger of a stream that may have ended. -/
structure Carried (before : List IrStreamEvent) (out : List RawSse) (s : StreamEncoder) :
    Prop where
  running : s.finished = false → Accounted before out s
  ended : s.finished = true → Delivered before out

theorem Carried.of_accounted (h : Accounted before out s) (hfinished : s.finished = false) :
    Carried before out s :=
  ⟨fun _ => h, fun hf => by rw [hfinished] at hf; cases hf⟩

theorem finish_carried (h : Carried before out s) :
    Carried before (out ++ (finish sj s).1) (finish sj s).2 ∧ (finish sj s).2.finished = true := by
  unfold finish
  cases hfinished : s.finished with
  | true =>
    simp only [if_true]
    exact ⟨by simpa using h, hfinished⟩
  | false =>
    have hacc := h.running hfinished
    have hwire : s.wire = .responses := hacc.wire
    have hended := hacc.plain (t := { s with finished := true }) Sent.nil rfl rfl rfl rfl rfl
      (Nat.le_refl _)
    rw [List.append_nil] at hended
    have hdelivered := finishResponses_delivered hended
    have hdone : (finishResponses { s with finished := true }).2.finished = true :=
      (flushResponsesHeld_kept _).2.trans (closeItem_kept _).finished
    simp only [Bool.false_eq_true, if_false, hwire] at hdelivered hdone ⊢
    exact ⟨⟨fun hf => absurd (hdone.symm.trans hf) (by decide), fun _ => hdelivered⟩, hdone⟩

theorem push_carried (hwell : CallsWellFormed evs) (hevs : evs = before ++ ev :: after)
    (h : Carried before out s) (hplain : copiedVerbatim sj .responses ev = false)
    (hsafe : ResponsesCallSafe s ev) :
    ∃ frames t, push sj s ev = .ok (frames, t) ∧ Carried (before ++ [ev]) (out ++ frames) t := by
  cases hfinished : s.finished with
  | true =>
    have hdelivered := (h.ended hfinished).skip (hsafe.1 hfinished)
    refine ⟨_, _, push_finished hfinished, fun hf => ?_, fun _ => by simpa using hdelivered⟩
    rw [hfinished] at hf
    cases hf
  | false =>
    have hacc := h.running hfinished
    obtain ⟨hland, hroom⟩ := hsafe.2 hfinished
    have hwire : s.wire = .responses := hacc.wire
    cases push_cases hfinished (by rw [hwire]; exact hplain) with
    | @side itemType payload r hev hpush heffect =>
      subst hev
      have hskip := @Accounted.skip _ _ _ hacc (.protocol itemType payload) (isQuiet_of_none rfl rfl)
      rw [hpush]
      cases heffect with
      | @quiet t hside =>
        obtain ⟨c, m, r, g, p, rfl, _⟩ := hside
        exact ⟨_, _, rfl, .of_accounted (hskip.plain Sent.nil rfl rfl rfl rfl rfl (Nat.le_refl _))
          hfinished⟩
      | @reasoning t _ hfield hknown hside =>
        obtain ⟨c, m, r, g, p, rfl, _⟩ := hside
        have hnoted := hskip.plain (t := { s with
          chat := c
          messages := m
          responses := r
          gemini := g
          conversePassthrough := p }) Sent.nil rfl rfl rfl rfl rfl (Nat.le_refl _)
        rw [List.append_nil] at hnoted
        exact ⟨_, _, rfl, .of_accounted (ensureItem_accounted rfl hnoted hroom)
          ((ensureItem_finished _ _).trans hfinished)⟩
      | citation hother => rw [hwire] at hother; cases hother
      | codePart hother => rw [hwire] at hother; cases hother
      | redacted blob hother => rw [hwire] at hother; cases hother
    | done hev hpush =>
      subst hev
      have hskip := @Accounted.skip _ _ _ hacc .done (isQuiet_of_none rfl rfl)
      rw [hpush]
      exact ⟨_, _, rfl, (finish_carried sj (.of_accounted hskip hfinished)).1⟩
    | skipped hskip hpush =>
      obtain ⟨hstart, hfragment⟩ := skipped_noCall hskip
      have hnext := hacc.skip (isQuiet_of_none hstart hfragment)
      rw [hpush]
      exact ⟨_, _, rfl, .of_accounted (by simpa using hnext) hfinished⟩
    | wired hwired hpush =>
      rw [hwire] at hwired
      obtain ⟨frames, t, hok, hnext⟩ :=
        pushResponses_accounted sj hwell hevs hacc hwired hroom hland
      have htfinished : t.finished = s.finished := pushResponses_finished sj hwired hok
      exact ⟨frames, t, by rw [hpush]; simpa only [pushWire, hwire] using hok,
        .of_accounted hnext (htfinished.trans hfinished)⟩

theorem new_carried (model : String) : Carried [] [] (StreamEncoder.new .responses model) :=
  .of_accounted
    { wire := rfl
      slotted := Slotted.new
      used_lt := fun e he => by cases he
      stands := fun c hc => by cases hc
      open_owned := fun b hb => by cases hb
      held_owned := fun e he => by cases he
      unowned := fun e _ => rfl } rfl

/-- Tool calls survive the Responses encoder. -/
theorem responses_calls_delivered (model : String) (evs : List IrStreamEvent)
    (hwell : CallsWellFormed evs)
    (hplain : ∀ ev ∈ evs, copiedVerbatim sj .responses ev = false)
    (hsafe : StepsMeet (push sj) ResponsesCallSafe (StreamEncoder.new .responses model) evs) :
    ∃ frames, encodeStream sj .responses model evs = .ok frames ∧ Delivered evs frames := by
  obtain ⟨out, t, hrun, hcarried⟩ := runAll_invariant Carried hsafe (new_carried model)
    fun before ev after out t hevs hcarried hstep =>
      push_carried sj hwell hevs hcarried (hplain ev (by simp [hevs])) hstep
  obtain ⟨hended, hfinished⟩ := finish_carried sj hcarried
  exact ⟨out ++ (finish sj t).1, by simp only [encodeStream, hrun, Except.map],
    hended.ended hfinished⟩

/-- A call held behind a custom one, text after both, and a late end. -/
theorem responses_calls_delivered_held :
    ∃ frames, encodeStream flatJson .responses "m" [.customToolCallStart "a" "f" 4,
        .toolCallStart "b" "g" none 2, .toolCallArgDelta "[1" 2, .customToolCallInputDelta "x" 4,
        .toolCallArgDelta "]" 2, .textDelta "t", .toolCallEnd] = .ok frames ∧
      Delivered [.customToolCallStart "a" "f" 4, .toolCallStart "b" "g" none 2,
        .toolCallArgDelta "[1" 2, .customToolCallInputDelta "x" 4, .toolCallArgDelta "]" 2,
        .textDelta "t", .toolCallEnd] frames :=
  responses_calls_delivered flatJson "m" _ (by decide) (by decide) (.of_allSteps (by decide))

/-- The call items in the `output` of a terminal frame. -/
def terminalCalls (frames : List RawSse) : List Value :=
  (frames.filter fun frame => frame.event.any isTerminal).flatMap fun frame =>
    (((frame.get? "response").bind fun r => r.get? "output").bind Value.asArray?).getD []

/-- The terminal frame has no `output`. -/
theorem responses_terminal_without_output :
    CallsWellFormed [.toolCallStart "a" "f" none 0, .toolCallArgDelta "[]" 0] ∧
      ¬ ∃ frames, encodeStream flatJson .responses "m" [.toolCallStart "a" "f" none 0,
          .toolCallArgDelta "[]" 0] = .ok frames ∧
        ∃ item ∈ terminalCalls frames, item.strAt? "arguments" = some "[]" := by
  refine ⟨by decide, ?_⟩
  rintro ⟨frames, hframes, item, hitem, _⟩
  obtain rfl := Except.ok.inj hframes
  cases hitem

end Wiremux.ResponsesCalls
