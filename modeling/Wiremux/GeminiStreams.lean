import Wiremux.CallNumbering

set_option autoImplicit false

/-!
# Calls of a Gemini stream

The starts of a stream carry the indexes 0, 1, 2, .. in their order, each argument
delta follows the start of its call, and the ids made for calls without one differ.
-/
namespace Wiremux.GeminiStreams
open JsonValue StreamEvents Completion SseReader Upstream FrameDecoding StreamDecoding GeminiDecoding
open CallNumbering FrameEnds WireEnds

variable {sj : SerdeJson} {raw : SseFrame} {dialect : Dialect} {seq next : ℕ} {value : Value}
  {xs ys : List IrStreamEvent} {out : Option IrStreamEvent}

def CallsOnlyIf (p : Prop) (out : Option IrStreamEvent) : Prop :=
  ∀ e, out = some e → (isCallEvent e || isProtocol e) = true → p

theorem CallsOnlyIf.of_quiet {p : Prop}
    (h : ∀ e, out = some e → (isCallEvent e || isProtocol e) = false) : CallsOnlyIf p out := by
  intro e he hcall
  rw [h e he] at hcall
  cases hcall

theorem CallsOnlyIf.map {p : Prop} {α : Type} {a : Option α} {f : α → IrStreamEvent}
    (hf : ∀ a, (isCallEvent (f a) || isProtocol (f a)) = false) : CallsOnlyIf p (a.map f) := by
  apply CallsOnlyIf.of_quiet
  intro e he
  obtain ⟨b, _, rfl⟩ := Option.map_eq_some_iff.mp he
  exact hf b

theorem CallsOnlyIf.orElse {p : Prop} {b : Unit → Option IrStreamEvent}
    (ha : CallsOnlyIf p out) (hb : CallsOnlyIf p (b ())) : CallsOnlyIf p (out.orElse b) := by
  cases out with
  | none => exact hb
  | some e => exact ha

theorem callsOnlyIf_usage {p : Prop} (value : Value) : CallsOnlyIf p (usageFromChunk value) := by
  unfold usageFromChunk
  split
  · exact .of_quiet fun e he => Option.some.inj he ▸ rfl
  · exact .map fun _ => rfl

theorem callsOnlyIf_inlineData {p : Prop} (part : Value) : CallsOnlyIf p (inlineDataEvent part) := by
  apply CallsOnlyIf.of_quiet
  intro e he
  rcases inlineData_cases he with ⟨data, rfl⟩ | ⟨mime, data, rfl⟩ <;> rfl

theorem callsOnlyIf_ite {p c : Prop} [Decidable c] (h : CallsOnlyIf p out) :
    CallsOnlyIf p (if c then out else none) := by
  split
  · exact h
  · nofun

theorem callsOnlyIf_part (part : Value) :
    CallsOnlyIf ((visibleCall part).isSome = true) (partEvent part) := by
  refine .orElse (callsOnlyIf_ite (.map fun _ => rfl)) (.orElse (callsOnlyIf_ite (.map fun _ => rfl))
    (.orElse ?_ (.orElse (callsOnlyIf_inlineData part) (.map fun _ => rfl))))
  intro e he _
  obtain ⟨fc, hfc, _⟩ := Option.map_eq_some_iff.mp he
  rw [hfc]
  rfl

def showsCall (value : Value) : Prop :=
  ∃ part ∈ items (candidateAt value ["content", "parts"]), (visibleCall part).isSome = true

theorem callsOnlyIf_candidate {candidate : Value} (h : candidate? value = some candidate) :
    CallsOnlyIf (showsCall value) (decodeCandidate value candidate) := by
  have hparts : candidateAt value ["content", "parts"] = pointer? candidate ["content", "parts"] := by
    rw [candidateAt, firstCandidate_of_candidate? h, Option.bind_some]
  refine .orElse ?_ (.orElse (.map fun _ => rfl) (.orElse (.map fun _ => rfl)
    (.orElse (.map fun _ => rfl) (.orElse (.map fun _ => rfl) (.orElse (.map fun _ => rfl)
      (.orElse (.map fun _ => rfl) (.orElse (callsOnlyIf_usage value) (.map fun _ => rfl))))))))
  intro e he hcall
  obtain ⟨part, hmem, hpart⟩ := List.exists_of_findSome?_eq_some he
  refine ⟨part, ?_, callsOnlyIf_part part e hpart hcall⟩
  rwa [hparts]

theorem callsOnlyIf_decode (h : GeminiDecoding.decode value = .ok out) :
    CallsOnlyIf (showsCall value) out := by
  unfold GeminiDecoding.decode at h
  split at h
  · cases h
    exact .of_quiet fun e he => Option.some.inj he ▸ rfl
  · split at h
    · cases h
    · cases h
      refine .orElse (callsOnlyIf_ite (callsOnlyIf_usage value)) ?_
      cases hcandidate : candidate? value with
      | none => exact callsOnlyIf_usage value
      | some candidate => exact callsOnlyIf_candidate hcandidate

theorem callsOnlyIf_unlisted {p : Prop} (h : ¬listed sj .gemini raw dialect)
    (hout : decodeStreamEvent sj .gemini raw dialect = .ok out) : CallsOnlyIf p out := by
  unfold decodeStreamEvent at hout
  split at hout
  · cases hout
    nofun
  · rename_i hspoken
    simp only at hout
    split at hout
    · rename_i hname
      exact absurd ⟨Bool.eq_false_iff.mpr hspoken, hname⟩ h
    · rw [unknownEvent, if_neg (by simp), unknownPolicy] at hout
      split at hout
      · rw [if_neg (by simp)] at hout
        cases hout
      · cases hout
        exact .of_quiet fun e he => Option.some.inj he ▸ rfl

theorem first_quiet (hfan : fanOutEvents sj .gemini raw seq = none)
    (hout : decodeStreamEvent sj .gemini raw dialect = .ok out) : CallsOnlyIf False out := by
  by_cases hlisted : listed sj .gemini raw dialect
  · by_cases hmark : marked sj .gemini raw
    · rw [first_of_marker hlisted hmark] at hout
      cases hout
      exact .of_quiet fun e he => Option.some.inj he ▸ rfl
    · obtain ⟨value, hvalue, hdecode⟩ := first_of_value hlisted hmark hout
      rw [fanOutEvents, hvalue, Option.bind_some] at hfan
      intro e he hcall
      obtain ⟨part, hmem, hpart⟩ := callsOnlyIf_decode hdecode e he hcall
      rw [fanOut_silent hfan part hmem] at hpart
      cases hpart
  · exact callsOnlyIf_unlisted hlisted hout

theorem expandGemini_quiet {first : IrStreamEvent}
    (h : (isCallEvent first || isProtocol first) = false) (value : Value) :
    expandGeminiFunctionCall sj first value = none := by
  have hneither : isCallOrProtocol first = false := by
    cases first with
    | toolCallStart id name sig i => cases h
    | protocol itemType payload => cases h
    | _ => rfl
  simp [expandGeminiFunctionCall, hneither]

theorem eventsOfFirst_quiet (hquiet : CallsOnlyIf False out)
    (h : eventsOfFirst sj .gemini raw out = .ok xs) : NoCall xs := by
  unfold eventsOfFirst at h
  split at h
  · cases h
    nofun
  · rename_i first
    have hfirst : (isCallEvent first || isProtocol first) = false := by
      by_contra hcall
      exact hquiet first rfl (Bool.eq_true_of_not_eq_false hcall)
    obtain ⟨expanded, hexpand, rfl⟩ := EmittingRuns.map_eq_ok h
    have hnone : expanded = none := by
      unfold expandCompleteToolCall at hexpand
      split at hexpand
      · exact (Except.ok.inj hexpand).symm
      · rename_i value _
        exact (Except.ok.inj hexpand).symm.trans (expandGemini_quiet hfirst value)
    rw [hnone]
    intro e he
    rw [List.mem_singleton.mp he]
    exact (Bool.or_eq_false_iff.mp hfirst).1

theorem inPlace_gemini (sj : SerdeJson) (raw : SseFrame) (dialect : Dialect) (seq : ℕ) :
    decodeInPlace sj .gemini raw dialect seq =
      match decodeStreamEvent sj .gemini raw dialect with
      | .error e => (.error e, seq)
      | .ok first =>
        match fanOutEvents sj .gemini raw seq with
        | some (events, next) => (.ok events, next)
        | none => (eventsOfFirst sj .gemini raw first, seq) := rfl

theorem frame_numbered (h : decodeInPlace sj .gemini raw dialect seq = (.ok xs, next)) :
    xs.filter isCallEvent = numbered sj (frameCalls sj raw) seq ∧
      next = seq + (frameCalls sj raw).length := by
  rw [inPlace_gemini] at h
  cases hfirst : decodeStreamEvent sj .gemini raw dialect with
  | error e =>
    rw [hfirst] at h
    cases h
  | ok first =>
    rw [hfirst] at h
    simp only at h
    cases hfan : fanOutEvents sj .gemini raw seq with
    | some found =>
      rw [hfan] at h
      cases h
      obtain ⟨value, hvalue, hout⟩ := Option.bind_eq_some_iff.mp hfan
      rw [frameCalls, hvalue]
      exact fanOut_numbered hout
    | none =>
      rw [hfan] at h
      simp only at h
      obtain ⟨hevents, hnext⟩ := Prod.mk.inj h
      have hcalls : frameCalls sj raw = [] := by
        unfold frameCalls
        cases hvalue : sj.fromStr raw.data with
        | none => rfl
        | some value =>
          rw [fanOutEvents, hvalue, Option.bind_some] at hfan
          apply List.filterMap_eq_nil_iff.mpr
          intro part hpart
          rw [partCall, fanOut_silent hfan part hpart]
          rfl
      rw [hcalls, filter_noCall (eventsOfFirst_quiet (first_quiet hfan hfirst) hevents)]
      exact ⟨rfl, hnext.symm⟩

theorem frame_failed {e : MapError} (h : (decodeInPlace sj .gemini raw dialect seq).1 = .error e) :
    (decodeInPlace sj .gemini raw dialect seq).2 = seq := by
  rw [inPlace_gemini] at h ⊢
  cases hfirst : decodeStreamEvent sj .gemini raw dialect with
  | error e => rfl
  | ok first =>
    rw [hfirst] at h
    simp only at h ⊢
    cases hfan : fanOutEvents sj .gemini raw seq with
    | some found =>
      rw [hfan] at h
      cases h
    | none => rfl

/-- The events of the frames that decode, and the decoder after them. -/
def streamEvents (sj : SerdeJson) (d : StreamDecoder) :
    List (SseFrame × Dialect) → List IrStreamEvent × StreamDecoder
  | [] => ([], d)
  | frame :: rest =>
    match d.decode sj .gemini frame.1 frame.2 with
    | (.error _, after) => streamEvents sj after rest
    | (.ok events, after) =>
      let later := streamEvents sj after rest
      (events ++ later.1, later.2)

/-- The visible calls of the frames that decode, in their order. -/
def streamCalls (sj : SerdeJson) (d : StreamDecoder) :
    List (SseFrame × Dialect) → List (Value × Value)
  | [] => []
  | frame :: rest =>
    match d.decode sj .gemini frame.1 frame.2 with
    | (.error _, after) => streamCalls sj after rest
    | (.ok _, after) => frameCalls sj frame.1 ++ streamCalls sj after rest

theorem stream_numbered (sj : SerdeJson) (frames : List (SseFrame × Dialect)) (d : StreamDecoder) :
    (streamEvents sj d frames).1.filter isCallEvent =
      numbered sj (streamCalls sj d frames) d.geminiCallSeq := by
  induction frames generalizing d with
  | nil => rfl
  | cons frame rest ih =>
    have hdecode := decode_eq_inPlace sj d .gemini frame.1 frame.2
    cases hresult : decodeInPlace sj .gemini frame.1 frame.2 d.geminiCallSeq with
    | mk result next =>
      rw [hresult] at hdecode
      unfold streamEvents streamCalls
      rw [hdecode]
      cases result with
      | error e =>
        have hkept := frame_failed (congrArg Prod.fst hresult)
        rw [hresult] at hkept
        simp only at hkept ⊢
        rw [ih, hkept]
      | ok events =>
        obtain ⟨hevents, hnext⟩ := frame_numbered hresult
        simp only
        rw [List.filter_append, hevents, ih, numbered_append, hnext]

/-- The index of a start. -/
def startIndex? : IrStreamEvent → Option ℕ
  | .toolCallStart _ _ _ index => some index
  | .customToolCallStart _ _ index => some index
  | _ => none

def startId? : IrStreamEvent → Option String
  | .toolCallStart id _ _ _ => some id
  | .customToolCallStart id _ _ => some id
  | _ => none

/-- The id that the call with number `seq` gets. -/
def callId (call : Value × Value) (seq : ℕ) : String :=
  geminiCallId call.2 ((call.2.strAt? "name").getD "") seq

/-- The call has no id of its own. -/
def unnamed (call : Value × Value) : Bool := (nonempty (call.2.strAt? "id")).isNone

/-- An index is a `u32`; a number above is sent as 0. -/
def streamIndex (seq : ℕ) : ℕ := if seq ≤ u32Max then seq else 0

theorem toU32_index (seq : ℕ) : (toU32? seq).getD 0 = streamIndex seq := by
  unfold toU32? streamIndex
  split <;> rfl

theorem filterMap_callEvents {α : Type} {f : IrStreamEvent → Option α}
    (hf : ∀ e, isCallEvent e = false → f e = none) (events : List IrStreamEvent) :
    (events.filter isCallEvent).filterMap f = events.filterMap f := by
  rw [List.filterMap_filter]
  congr 1
  funext e
  split
  · rfl
  · rename_i hcall
    exact (hf e (Bool.eq_false_iff.mpr hcall)).symm

theorem startIndex?_quiet (e : IrStreamEvent) (h : isCallEvent e = false) : startIndex? e = none := by
  cases e <;> first | rfl | cases h

theorem startId?_quiet (e : IrStreamEvent) (h : isCallEvent e = false) : startId? e = none := by
  cases e <;> first | rfl | cases h

variable (sj) in
/-- A property of the start of each call, read off the events of the calls. -/
theorem filterMap_numbered {α : Type} (f : IrStreamEvent → Option α) (g : Value × Value → ℕ → α)
    (hstart : ∀ call seq, f (callStart call.1 call.2 seq (streamIndex seq)) = some (g call seq))
    (hdelta : ∀ delta index, f (.toolCallArgDelta delta index) = none)
    (calls : List (Value × Value)) (seq : ℕ) :
    (numbered sj calls seq).filterMap f = calls.mapIdx fun k call => g call (seq + k) := by
  induction calls generalizing seq with
  | nil => rfl
  | cons call rest ih =>
    have hone : (callEvents sj call.1 call.2 seq).filterMap f = [g call seq] := by
      unfold callEvents
      simp only [toU32_index]
      rw [List.filterMap_cons_some (hstart call seq)]
      cases callArgs call.2 with
      | none => rfl
      | some args =>
        simp only [Option.map_some, Option.toList_some]
        rw [List.filterMap_cons_none (hdelta _ _)]
        rfl
    rw [numbered, List.filterMap_append, hone, ih, List.mapIdx_cons, Nat.add_zero]
    have hlater : (fun k other => g other (seq + 1 + k)) = fun k other => g other (seq + (k + 1)) := by
      funext k other
      rw [Nat.add_assoc, Nat.add_comm 1 k]
    rw [hlater]
    rfl

/-- Each argument delta stands right behind a start of its index. -/
def Led (events : List IrStreamEvent) : Prop :=
  ∀ before delta index after, events = before ++ .toolCallArgDelta delta index :: after →
    ∃ earlier id name signature, before = earlier ++ [.toolCallStart id name signature index]

theorem Led.append (hx : Led xs) (hy : Led ys) : Led (xs ++ ys) := by
  intro before delta index after hsplit
  rcases List.append_eq_append_iff.mp hsplit with ⟨middle, hbefore, hlater⟩ | ⟨middle, hfirst, hlater⟩
  · obtain ⟨earlier, id, name, signature, hmiddle⟩ := hy middle delta index after hlater
    exact ⟨xs ++ earlier, id, name, signature, by rw [hbefore, hmiddle, List.append_assoc]⟩
  · cases middle with
    | nil =>
      obtain ⟨earlier, id, name, signature, hnil⟩ := hy [] delta index after hlater.symm
      simp at hnil
    | cons e rest =>
      obtain ⟨rfl, _⟩ := List.cons.inj hlater
      exact hx before delta index rest hfirst

theorem led_call (part fc : Value) (seq : ℕ) : Led (callEvents sj part fc seq) := by
  intro before delta index after hsplit
  unfold callEvents callStart at hsplit
  simp only at hsplit
  cases before with
  | nil => cases (List.cons.inj hsplit).1
  | cons e rest =>
    obtain ⟨rfl, htail⟩ := List.cons.inj hsplit
    cases hargs : callArgs fc with
    | none =>
      rw [hargs] at htail
      simp at htail
    | some args =>
      rw [hargs] at htail
      cases rest with
      | nil =>
        cases (List.cons.inj htail).1
        exact ⟨[], _, _, _, rfl⟩
      | cons other rest =>
        have hlength := congrArg List.length htail
        simp at hlength

theorem led_numbered (calls : List (Value × Value)) (seq : ℕ) : Led (numbered sj calls seq) := by
  induction calls generalizing seq with
  | nil =>
    intro before delta index after hsplit
    simp [numbered] at hsplit
  | cons call rest ih => exact (led_call call.1 call.2 seq).append (ih (seq + 1))

theorem callId_unnamed {call : Value × Value} (h : unnamed call = true) (seq : ℕ) :
    callId call seq = GeminiCallIds.placeId ((call.2.strAt? "name").getD "") seq := by
  rw [callId, geminiCallId, Option.isNone_iff_eq_none.mp h]
  rfl

theorem stream_indexes (sj : SerdeJson) (frames : List (SseFrame × Dialect)) :
    (streamEvents sj {} frames).1.filterMap startIndex? =
      (List.range (streamCalls sj {} frames).length).map streamIndex := by
  have hindexes := filterMap_numbered sj startIndex? (fun _ k => streamIndex k)
    (fun _ _ => rfl) (fun _ _ => rfl) (streamCalls sj {} frames) 0
  rw [← filterMap_callEvents startIndex?_quiet, stream_numbered, hindexes]
  apply List.ext_getElem
  · simp
  · intro k hk hrange
    simp

theorem stream_ids (sj : SerdeJson) (frames : List (SseFrame × Dialect)) :
    (streamEvents sj {} frames).1.filterMap startId? =
      (streamCalls sj {} frames).mapIdx fun k call => callId call k := by
  have hids := filterMap_numbered sj startId? callId (fun _ _ => rfl) (fun _ _ => rfl)
    (streamCalls sj {} frames) 0
  rw [← filterMap_callEvents startId?_quiet, stream_numbered, hids]
  simp only [Nat.zero_add]

theorem callId_apart {call other : Value × Value} {j k : ℕ} (hcall : unnamed call = true)
    (hother : unnamed other = true) (hne : j ≠ k) : callId call j ≠ callId other k := by
  intro heq
  rw [callId_unnamed hcall, callId_unnamed hother] at heq
  exact hne (GeminiCallIds.placeId_seq heq)

/-- What comes out of a stream about the calls of its frames. -/
structure Numbered (calls : List (Value × Value)) (events : List IrStreamEvent) : Prop where
  indexes : events.filterMap startIndex? = (List.range calls.length).map streamIndex
  ids : events.filterMap startId? = calls.mapIdx fun k call => callId call k
  deltas : Led (events.filter isCallEvent)
  apart : ∀ j k call other, calls[j]? = some call → calls[k]? = some other →
    unnamed call = true → unnamed other = true → j ≠ k → callId call j ≠ callId other k

theorem gemini_calls_numbered (sj : SerdeJson) (frames : List (SseFrame × Dialect)) :
    Numbered (streamCalls sj {} frames) (streamEvents sj {} frames).1 ∧
      ∀ raw dialect seq e, (decodeInPlace sj .gemini raw dialect seq).1 = .error e →
        (decodeInPlace sj .gemini raw dialect seq).2 = seq := by
  have hled : Led ((streamEvents sj {} frames).1.filter isCallEvent) := by
    rw [stream_numbered]
    exact led_numbered _ _
  exact ⟨⟨stream_indexes sj frames, stream_ids sj frames, hled,
    fun _ _ _ _ _ _ hcall hother hne => callId_apart hcall hother hne⟩, fun _ _ _ _ => frame_failed⟩

def callPart : Value := .object [("functionCall", .object [("name", "f")])]

def callValue : Value :=
  .object [("candidates", .array [.object [("content", .object [("parts", .array [callPart])])]])]

def callFrame : SseFrame where
  event := none
  data := "\x7b\"candidates\":[\x7b\"content\":\x7b\"parts\":[\x7b\"functionCall\":\x7b\"name\":\"f\"\x7d\x7d]\x7d\x7d]\x7d"

def callJson : SerdeJson where
  fromStr text := if text = callFrame.data then some callValue else none
  toString _ := "{}"

def chunkDialect : Dialect := ⟨["chunk"], .hardError⟩

theorem streamCalls_replicate (d : StreamDecoder) (n : ℕ) :
    (streamCalls callJson d (List.replicate n (callFrame, chunkDialect))).length = n := by
  induction n generalizing d with
  | zero => rfl
  | succ n ih =>
    have hfirst : ∃ first, decodeStreamEvent callJson .gemini callFrame chunkDialect = .ok first :=
      ⟨_, rfl⟩
    obtain ⟨first, hfirst⟩ := hfirst
    have hdecode := decode_eq_inPlace callJson d .gemini callFrame chunkDialect
    rw [inPlace_gemini, hfirst] at hdecode
    simp only at hdecode
    rw [List.replicate_succ]
    unfold streamCalls
    cases hfan : fanOutEvents callJson .gemini callFrame d.geminiCallSeq with
    | none =>
      have hnone := fanOutEvents_none hfan 0
      cases hnone
    | some found =>
      rw [hfan] at hdecode
      simp only at hdecode ⊢
      rw [hdecode]
      simp only
      rw [List.length_append, ih]
      exact Nat.add_comm 1 n

/-- The call behind `u32::MAX` others and one more gets the index of the first one. -/
theorem late_call_reuses_index : ¬ ∀ (sj : SerdeJson) (frames : List (SseFrame × Dialect)),
    (streamEvents sj {} frames).1.filterMap startIndex? =
      List.range (streamCalls sj {} frames).length := by
  intro hall
  have hrange := hall callJson (List.replicate (u32Max + 2) (callFrame, chunkDialect))
  rw [stream_indexes, streamCalls_replicate] at hrange
  have hlast := congrArg (fun list => list[u32Max + 1]?) hrange
  simp only [List.getElem?_map] at hlast
  rw [List.getElem?_range (Nat.lt_succ_self (u32Max + 1)), Option.map_some] at hlast
  have hindex : streamIndex (u32Max + 1) = 0 := if_neg (Nat.not_succ_le_self u32Max)
  rw [hindex] at hlast
  cases hlast

end Wiremux.GeminiStreams
