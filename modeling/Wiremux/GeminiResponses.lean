import Wiremux.GeminiWalk

set_option autoImplicit false

/-!
# Which response is matched

The decoder, the intended reading and the watch run side by side. As long as every
response is in reach the first two agree; the first one that is not sets them apart
for good.
-/
namespace Wiremux.GeminiResponses
open JsonValue RequestParts MessagesItems GeminiContents GeminiMatching GeminiCallIds GeminiWalk

/-- The items, cut at the latest turn: `old` are turns that gave no user items. -/
structure Cut (items : List IrItem) (calls : List (String × String)) (phase : Phase)
    (stale : List String) (base old turn tail : List IrItem) : Prop where
  shape : items = base ++ (old ++ turn) ++ tail
  closed : Closed base
  inner : ∀ item ∈ old ++ turn, isBoundary item = false
  staleNames : (callsOf old).map Prod.fst = stale
  turnCalls : callsOf turn = calls
  unused : ∀ call ∈ callsOf old, call.2 ∉ outputIds items
  fits : Fits phase tail

structure Rel (i : Intent) (w : Watch) : Prop where
  model : w.model = i.now.model
  pending : w.pending = !i.now.textParts.isEmpty
  names : w.calls = i.calls.map Prod.fst
  ledger : Ledger i.now.items i.calls i.answered
  cut : ∃ base old turn tail, Cut i.now.items i.calls w.phase w.stale base old turn tail
  fresh : w.phase = .start → i.answered = []
  inModel : i.now.model = true → w.phase = .start

variable {i : Intent} {w : Watch}

theorem fits_user {phase : Phase} {tail : List IrItem} (h : Fits phase tail) {user : IrItem}
    (huser : isUser user = true) : Fits phase.user (tail ++ [user]) := by
  cases phase with
  | start =>
    obtain rfl : tail = [] := h
    exact ⟨user, huser, rfl⟩
  | opened =>
    obtain ⟨first, hfirst, rfl⟩ := h
    exact ⟨[], first, user, [], isUser_boundary hfirst, huser, by simp, rfl⟩
  | answering =>
    obtain ⟨lead, outs, _, hne, houts, rfl⟩ := h
    obtain ⟨init, last, rfl⟩ := (List.eq_nil_or_concat outs).resolve_left hne
    rw [List.concat_eq_append] at houts ⊢
    exact ⟨lead ++ init, last, user, [], isOutput_boundary (houts last (by simp)), huser, by simp,
      by simp⟩
  | closed =>
    obtain ⟨before, last, first, outs, hlast, hfirst, houts, rfl⟩ := h
    rcases List.eq_nil_or_concat outs with rfl | ⟨init, out, rfl⟩
    · exact ⟨before ++ [last], first, user, [], isUser_boundary hfirst, huser, by simp, by simp⟩
    · rw [List.concat_eq_append] at houts ⊢
      exact ⟨before ++ last :: first :: init, out, user, [], isOutput_boundary (houts out (by simp)),
        huser, by simp, by simp⟩

/-- An output behind the items, or behind a user item that was flushed for it. -/
theorem fits_output {phase : Phase} {tail : List IrItem} (h : Fits phase tail)
    (hreached : phase.reached = true) {out : IrItem} (hout : out.isOutput = true) :
    Fits (phase.output false) (tail ++ [out]) ∧
      ∀ user, isUser user = true → Fits (phase.output true) (tail ++ [user] ++ [out]) := by
  have hone : ∀ item ∈ [out], item.isOutput = true := by simpa using hout
  cases phase with
  | start =>
    obtain rfl : tail = [] := h
    refine ⟨⟨[], [out], Or.inl rfl, List.cons_ne_nil _ _, hone, rfl⟩, fun user huser => ?_⟩
    exact ⟨[user], [out], Or.inr ⟨user, huser, rfl⟩, List.cons_ne_nil _ _, hone, rfl⟩
  | answering =>
    obtain ⟨lead, outs, hlead, hne, houts, rfl⟩ := h
    refine ⟨⟨lead, outs ++ [out], hlead, by simp, fun item hmem => ?_, by simp⟩, fun user huser => ?_⟩
    · rcases List.mem_append.mp hmem with hmem | hmem
      · exact houts item hmem
      · exact hone item hmem
    · obtain ⟨init, last, rfl⟩ := (List.eq_nil_or_concat outs).resolve_left hne
      rw [List.concat_eq_append] at houts ⊢
      exact ⟨lead ++ init, last, user, [out], isOutput_boundary (houts last (by simp)), huser, hone,
        by simp⟩
  | opened => cases hreached
  | closed => cases hreached

theorem fits_closed {phase : Phase} {tail : List IrItem} (h : Fits phase tail)
    (hphase : phase ≠ .start) (front : List IrItem) : Closed (front ++ tail) := by
  have hends : ∃ before last, isBoundary last = true ∧ tail = before ++ [last] := by
    cases phase with
    | start => exact absurd rfl hphase
    | opened =>
      obtain ⟨user, huser, rfl⟩ := h
      exact ⟨[], user, isUser_boundary huser, rfl⟩
    | answering =>
      obtain ⟨lead, outs, _, hne, houts, rfl⟩ := h
      obtain ⟨init, last, rfl⟩ := (List.eq_nil_or_concat outs).resolve_left hne
      rw [List.concat_eq_append] at houts ⊢
      exact ⟨lead ++ init, last, isOutput_boundary (houts last (by simp)), by simp⟩
    | closed =>
      obtain ⟨before, last, user, outs, _, huser, houts, rfl⟩ := h
      rcases List.eq_nil_or_concat outs with rfl | ⟨init, out, rfl⟩
      · exact ⟨before ++ [last], user, isUser_boundary huser, by simp⟩
      · rw [List.concat_eq_append] at houts ⊢
        exact ⟨before ++ last :: user :: init, out, isOutput_boundary (houts out (by simp)), by simp⟩
  obtain ⟨before, last, hlast, rfl⟩ := hends
  exact Or.inr ⟨front ++ before, last, hlast, by rw [List.append_assoc]⟩

/-- An item at the end of the turn itself, while the user has given nothing. -/
theorem Cut.push_turn {items : List IrItem} {calls : List (String × String)} {stale : List String}
    {base old turn tail : List IrItem} (h : Cut items calls .start stale base old turn tail)
    {item : IrItem} (hinner : isBoundary item = false) :
    Cut (items ++ [item]) (calls ++ callsOf [item]) .start stale base old (turn ++ [item]) [] := by
  have htail : tail = [] := h.fits
  have hout : outputId item = none := by cases item <;> first | rfl | cases hinner
  refine ⟨?_, h.closed, fun other hmem => ?_, h.staleNames, ?_, fun call hmem => ?_, rfl⟩
  · rw [h.shape, htail]
    simp
  · rw [← List.append_assoc] at hmem
    rcases List.mem_append.mp hmem with hmem | hmem
    · exact h.inner other hmem
    · rw [List.mem_singleton.mp hmem]
      exact hinner
  · rw [callsOf_append, h.turnCalls]
  · rw [outputIds_append, show outputIds [item] = [] by simp [outputIds, hout], List.append_nil]
    exact h.unused call hmem

theorem Cut.push_tail {items : List IrItem} {calls : List (String × String)} {phase phase' : Phase}
    {stale : List String} {base old turn tail more : List IrItem}
    (h : Cut items calls phase stale base old turn tail)
    (hfits : Fits phase' (tail ++ more))
    (hunused : ∀ call ∈ callsOf old, call.2 ∉ outputIds (items ++ more)) :
    Cut (items ++ more) calls phase' stale base old turn (tail ++ more) :=
  ⟨by rw [h.shape, List.append_assoc], h.closed, h.inner, h.staleNames, h.turnCalls, hunused, hfits⟩

theorem flushParts_empty {d : Decoding} (h : d.textParts.isEmpty = true) : flushParts d = d := by
  rw [flushParts, if_pos h]

theorem flushWatch_empty (h : w.pending = false) : flushWatch w = w := by
  obtain ⟨model, pending, phase, calls, stale, ok⟩ := w
  obtain rfl : pending = false := h
  rfl

def flushedItem (d : Decoding) : IrItem :=
  if d.model then .assistant d.textParts none else .user d.textParts

theorem flushParts_some {d : Decoding} (h : d.textParts.isEmpty = false) :
    flushParts d = ⟨d.model, [], d.items ++ [flushedItem d]⟩ := by
  rw [flushParts, if_neg (by simp [h])]
  rfl

theorem flushedItem_plain (d : Decoding) :
    callOf (flushedItem d) = none ∧ outputId (flushedItem d) = none := by
  unfold flushedItem
  split <;> exact ⟨rfl, rfl⟩

def flushIntent (i : Intent) : Intent := { i with now := flushParts i.now }

theorem Rel.flush (h : Rel i w) : Rel (flushIntent i) (flushWatch w) := by
  cases hempty : i.now.textParts.isEmpty with
  | true =>
    have hpending : w.pending = false := by rw [h.pending, hempty]; rfl
    rw [flushIntent, flushParts_empty hempty, flushWatch_empty hpending]
    exact h
  | false =>
    have hpending : w.pending = true := by rw [h.pending, hempty]; rfl
    obtain ⟨hcall, hout⟩ := flushedItem_plain i.now
    obtain ⟨base, old, turn, tail, hcut⟩ := h.cut
    have hledger := h.ledger.push hcall hout
    rw [flushIntent, flushParts_some hempty]
    cases hmodel : i.now.model with
    | true =>
      have hphase := h.inModel hmodel
      have hkept : (flushWatch w).phase = .start := by
        simp [flushWatch, hpending, h.model, hmodel, hphase]
      have hinner : isBoundary (flushedItem i.now) = false := by simp [flushedItem, hmodel, isBoundary]
      rw [hphase] at hcut
      have hnext := hcut.push_turn hinner
      rw [show callsOf [flushedItem i.now] = [] by simp [callsOf, hcall], List.append_nil] at hnext
      refine ⟨h.model.trans hmodel, rfl, h.names, hledger, ⟨base, old, turn ++ [flushedItem i.now], [], ?_⟩, fun _ => h.fresh hphase,
        fun _ => hkept⟩
      rw [hkept]
      exact hnext
    | false =>
      have hmoved : (flushWatch w).phase = w.phase.user := by
        simp [flushWatch, hpending, h.model, hmodel]
      have huser : isUser (flushedItem i.now) = true := by simp [flushedItem, hmodel, isUser]
      refine ⟨h.model.trans hmodel, rfl, h.names, hledger, ⟨base, old, turn, tail ++ [flushedItem i.now], ?_⟩, fun hstart => ?_,
        fun hm => by cases hm⟩
      · rw [hmoved]
        refine hcut.push_tail (fits_user hcut.fits huser) fun call hmem => ?_
        rw [outputIds_append, show outputIds [flushedItem i.now] = [] by simp [outputIds, hout],
          List.append_nil]
        exact hcut.unused call hmem
      · rw [hmoved] at hstart
        cases hphase : w.phase <;> rw [hphase] at hstart <;> cases hstart

theorem flushParts_model (d : Decoding) : (flushParts d).model = d.model := by
  unfold flushParts
  split <;> rfl

theorem flushParts_textParts (d : Decoding) : (flushParts d).textParts = [] := by
  cases hempty : d.textParts.isEmpty with
  | true => rw [flushParts_empty hempty, List.isEmpty_iff.mp hempty]
  | false => rw [flushParts_some hempty]

theorem Rel.call (h : Rel i w) (hmodel : i.now.model = true) (name arguments : String)
    (signature : Option String) :
    Rel (intendPiece i (.call none name arguments signature))
      (watchPiece w (.call none name arguments signature)) := by
  have hflush := h.flush
  have hnow : (flushIntent i).now.model = true := (flushParts_model i.now).trans hmodel
  have hphase := hflush.inModel hnow
  have hanswered : i.answered = [] := hflush.fresh hphase
  have hledger : Ledger (flushParts i.now).items i.calls [] := by
    rw [← hanswered]
    exact hflush.ledger
  obtain ⟨base, old, turn, tail, hcut⟩ := hflush.cut
  rw [hphase] at hcut
  have hinner : isBoundary (.functionCall (placeId name (flushParts i.now).items.length) name
    arguments signature) = false := rfl
  have hnext := hcut.push_turn hinner
  refine ⟨hflush.model, ?_, ?_, ?_, ⟨base, old, turn ++ [.functionCall
    (placeId name (flushParts i.now).items.length) name arguments signature], [], ?_⟩,
    fun _ => hanswered, fun _ => hphase⟩
  · change (flushWatch w).pending = !(flushParts i.now).textParts.isEmpty
    exact hflush.pending
  · change w.calls ++ [name] = (i.calls ++ [_]).map Prod.fst
    rw [h.names, List.map_append]
    rfl
  · change Ledger _ _ i.answered
    rw [hanswered]
    exact hledger.push_call name arguments signature
  · rw [show (watchPiece w (.call none name arguments signature)).phase = .start from hphase]
    exact hnext

theorem Rel.shown (h : Rel i w) (parts : List IrPart) :
    Rel (intendPiece i (.shown parts)) (watchPiece w (.shown parts)) := by
  refine ⟨h.model, ?_, h.names, h.ledger, h.cut, h.fresh, h.inModel⟩
  change (w.pending || !parts.isEmpty) = !(i.now.textParts ++ parts).isEmpty
  rw [h.pending]
  cases i.now.textParts <;> cases parts <;> rfl

theorem callsNamed_length (calls : List (String × String)) (name : String) :
    (callsNamed calls name).length = (calls.map Prod.fst).count name := by
  induction calls with
  | nil => rfl
  | cons call rest ih =>
    rw [callsNamed_cons, List.map_cons, List.count_cons]
    by_cases hname : call.1 = name
    · rw [if_pos hname, List.length_cons, ih, if_pos (beq_iff_eq.mpr hname)]
    · rw [if_neg hname, ih, if_neg (mt beq_iff_eq.mp hname), Nat.add_zero]

def Answerable (i : Intent) (name : String) : Prop :=
  i.now.model = false ∧ i.answered.count name < (i.calls.map Prod.fst).count name

theorem Answerable.next {name : String} (h : Answerable i name) :
    ∃ call, (callsNamed i.calls name)[i.answered.count name]? = some call := by
  have hlt := h.2
  rw [← callsNamed_length] at hlt
  exact ⟨_, List.getElem?_eq_getElem hlt⟩

def foundId (d : Decoding) (name : String) : Option String :=
  unmatchedCallId (flushParts d).items name (!d.model && !d.textParts.isEmpty)

theorem foundId_reach (hmodel : i.now.model = false) (name : String) :
    foundId i.now name =
      (reach i.now.items.reverse).findSome? (unmatchedId name (outputIds i.now.items)) := by
  cases hempty : i.now.textParts.isEmpty with
  | true =>
    rw [foundId, flushParts_empty hempty, hmodel, hempty]
    exact unmatched_plain i.now.items name
  | false =>
    have huser : isUser (flushedItem i.now) = true := by simp [flushedItem, hmodel, isUser]
    have houts : outputIds (i.now.items ++ [flushedItem i.now]) = outputIds i.now.items := by
      rw [outputIds_append]
      simp [outputIds, (flushedItem_plain i.now).2]
    rw [foundId, flushParts_some hempty, hmodel, hempty, ← houts]
    exact unmatched_flushed i.now.items name huser

theorem nextCall_eq {name : String} {call : String × String}
    (h : (callsNamed i.calls name)[i.answered.count name]? = some call) :
    nextCall i name = some call.2 := by
  rw [nextCall, h]
  rfl

/-- A call of an earlier turn has another id than one of the latest turn. -/
theorem Cut.old_ne {items : List IrItem} {calls : List (String × String)} {answered : List String}
    {phase : Phase} {stale : List String} {base old turn tail : List IrItem}
    (h : Cut items calls phase stale base old turn tail) (hledger : Ledger items calls answered)
    {other call : String × String} (hother : other ∈ callsOf old) (hcall : call ∈ calls) :
    other.2 ≠ call.2 := by
  have hnodup := hledger.nodup
  rw [h.shape, callIdsOf_append, callIdsOf_append, callIdsOf_append] at hnodup
  have hinner := (List.nodup_append.mp (List.nodup_append.mp hnodup).1).2.1
  refine (List.nodup_append.mp hinner).2.2 other.2 (List.mem_map_of_mem hother) call.2 ?_
  rw [callIdsOf, h.turnCalls]
  exact List.mem_map_of_mem hcall

/-- The walk finds the call that is meant exactly when the turn is in reach and no earlier
turn that is in reach has a call of that name. -/
theorem found_iff (h : Rel i w) {name : String} (hanswer : Answerable i name) :
    (foundId i.now name).getD name = (nextCall i name).getD name ↔
      (w.phase.reached && !w.stale.contains name) = true := by
  obtain ⟨call, hcall⟩ := hanswer.next
  obtain ⟨base, old, turn, tail, hcut⟩ := h.cut
  have hmem := mem_of_named hcall
  rw [nextCall_eq hcall, foundId_reach hanswer.1, Option.getD_some]
  obtain ⟨k, _, hplace⟩ := h.ledger.seq call (h.ledger.among.subset hmem.1)
  cases hphase : w.phase.reached with
  | false =>
    rw [hcut.shape, reach_none hphase hcut.fits]
    refine iff_of_false (fun heq => ?_) (by simp)
    rw [hplace, hmem.2] at heq
    exact placeId_ne name k heq.symm
  | true =>
    have hne : old ++ turn ≠ [] := by
      intro hnil
      rw [← hcut.turnCalls, (List.append_eq_nil_iff.mp hnil).2] at hmem
      cases hmem.1
    rw [Bool.true_and]
    have hreach := reach_turn hphase hcut.fits hcut.closed hne hcut.inner
    rw [← hcut.shape] at hreach
    rw [hreach, List.findSome?_append, h.ledger.find_next hcut.turnCalls name, hcall, findSome_calls]
    have hold : ∀ k other, (callsNamed (callsOf old) name)[k]? = some other →
        (other.2 ∈ outputIds i.now.items ↔ k < 0) := fun k other hk =>
      iff_of_false (hcut.unused other (mem_of_named hk).1) (Nat.not_lt_zero k)
    rw [find_from _ _ 0 hold]
    cases hfirst : (callsNamed (callsOf old) name)[0]? with
    | none =>
      refine iff_of_true rfl ?_
      rw [← hcut.staleNames]
      have hnone : callsNamed (callsOf old) name = [] := by
        rw [List.getElem?_eq_none_iff] at hfirst
        exact List.length_eq_zero_iff.mp (Nat.le_zero.mp hfirst)
      have hcount := callsNamed_length (callsOf old) name
      rw [hnone, List.length_nil] at hcount
      simpa using List.count_eq_zero.mp hcount.symm
    | some other =>
      have hother := mem_of_named hfirst
      refine iff_of_false (hcut.old_ne h.ledger hother.1 hmem.1) ?_
      rw [← hcut.staleNames]
      have hstale : name ∈ (callsOf old).map Prod.fst := List.mem_map.mpr ⟨other, hother.1, hother.2⟩
      simpa using hstale

theorem Rel.response (h : Rel i w) {name : String} (hanswer : Answerable i name)
    (hreach : w.phase.reached = true) (output : String) (parts : List IrPart) :
    Rel (intendPiece i (.response none name output parts))
      (watchPiece w (.response none name output parts)) := by
  obtain ⟨call, hcall⟩ := hanswer.next
  obtain ⟨base, old, turn, tail, hcut⟩ := h.cut
  have hmem := mem_of_named hcall
  have hledger := h.flush.ledger.push_output hcall output parts
  have hid : (none.or (nextCall i name)).getD name = call.2 := by
    rw [nextCall_eq hcall]
    rfl
  have hphase : (w.phase.output w.pending) ≠ .start := by
    cases w.phase <;> cases w.pending <;> decide
  have hmodel : (flushParts i.now).model = false := (flushParts_model i.now).trans hanswer.1
  have houtput : (IrItem.functionOutput call.2 output parts false).isOutput = true := rfl
  obtain ⟨hplain, hmarked⟩ := fits_output hcut.fits hreach houtput
  have hunused : ∀ more, outputIds more = [call.2] → ∀ other ∈ callsOf old,
      other.2 ∉ outputIds (i.now.items ++ more) := by
    intro more hmore other hother hin
    rw [outputIds_append, hmore] at hin
    rcases List.mem_append.mp hin with hin | hin
    · exact hcut.unused other hother hin
    · exact hcut.old_ne h.ledger hother hmem.1 (List.mem_singleton.mp hin)
  have hitems : ∃ tail', Cut ((flushParts i.now).items ++ [.functionOutput call.2 output parts false])
      i.calls (w.phase.output w.pending) w.stale base old turn tail' := by
    cases hempty : i.now.textParts.isEmpty with
    | true =>
      rw [flushParts_empty hempty, h.pending, hempty]
      exact ⟨_, hcut.push_tail hplain (hunused _ rfl)⟩
    | false =>
      have huser : isUser (flushedItem i.now) = true := by simp [flushedItem, hanswer.1, isUser]
      rw [flushParts_some hempty, h.pending, hempty, List.append_assoc]
      refine ⟨_, hcut.push_tail (by rw [← List.append_assoc]; exact hmarked _ huser) (hunused _ ?_)⟩
      have hnone : outputIds [flushedItem i.now] = [] := by simp [outputIds, (flushedItem_plain i.now).2]
      rw [outputIds_append, hnone]
      rfl
  refine ⟨?_, ?_, h.names, ?_, ⟨base, old, turn, ?_⟩, fun hstart => absurd hstart hphase, fun htrue => ?_⟩
  · exact h.model.trans (hanswer.1.trans hmodel.symm)
  · change false = !(flushParts i.now).textParts.isEmpty
    rw [flushParts_textParts]
    rfl
  · simp only [intendPiece, hid]
    exact hledger
  · simp only [intendPiece, hid]
    exact hitems
  · exact absurd (hmodel.symm.trans htrue) (by decide)

theorem Rel.open (h : Rel i w) (model : Bool) : Rel (openContent i model) (openWatch w model) := by
  obtain ⟨base, old, turn, tail, hcut⟩ := h.cut
  cases model with
  | false =>
    exact ⟨rfl, rfl, h.names, h.ledger, ⟨base, old, turn, tail, hcut⟩, h.fresh, fun hm => by cases hm⟩
  | true =>
    refine ⟨rfl, rfl, rfl, h.ledger.opened, ?_, fun _ => rfl, fun _ => rfl⟩
    by_cases hphase : w.phase = .start
    · have hfits := hcut.fits
      rw [hphase] at hfits
      obtain rfl : tail = [] := hfits
      refine ⟨base, old ++ turn, [], [], ?_, hcut.closed, ?_, ?_, rfl, fun call hmem => ?_, rfl⟩
      · simpa [openContent] using hcut.shape
      · rw [List.append_nil]
        exact hcut.inner
      · rw [callsOf_append, List.map_append, hcut.staleNames, hcut.turnCalls, ← h.names]
        exact (if_pos hphase).symm
      · rw [callsOf_append, hcut.turnCalls] at hmem
        rcases List.mem_append.mp hmem with hmem | hmem
        · exact hcut.unused call hmem
        · have hnamed : call ∈ callsNamed i.calls call.1 :=
            List.mem_filter.mpr ⟨hmem, beq_iff_eq.mpr rfl⟩
          obtain ⟨k, hk⟩ := List.mem_iff_getElem?.mp hnamed
          have hanswered := h.ledger.answered call.1 k call hk
          rw [h.fresh hphase] at hanswered
          exact fun hin => absurd (hanswered.mp hin) (Nat.not_lt_zero k)
    · refine ⟨i.now.items, [], [], [], by simp [openContent], ?_, by simp, ?_, rfl,
        fun call hmem => (by cases hmem), rfl⟩
      · rw [hcut.shape]
        exact fits_closed hcut.fits hphase _
      · exact (if_neg hphase).symm

end Wiremux.GeminiResponses
