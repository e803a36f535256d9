import Mathlib.Data.List.Nodup
import Wiremux.GeminiMatching

set_option autoImplicit false

/-!
# The ids of calls and responses

A call without an id is named by its place in the list of items, so no two calls
share an id. The responses that are meant take the ids of one name in their order.
-/
namespace Wiremux.GeminiCallIds
open JsonValue RequestParts MessagesItems GeminiContents GeminiMatching

def placeId (name : String) (seq : ℕ) : String := name ++ "#" ++ toString seq

theorem toList_placeId (name : String) (seq : ℕ) :
    (placeId name seq).toList = name.toList ++ '#' :: Nat.toDigits 10 seq := by
  have hdigits : (toString seq).toList = Nat.toDigits 10 seq := Nat.toList_repr
  rw [placeId, String.toList_append, String.toList_append, hdigits]
  simp

theorem placeId_digits (name : String) (seq : ℕ) :
    (placeId name seq).toList.reverse.takeWhile (· != '#') = (Nat.toDigits 10 seq).reverse := by
  have hdigits : ∀ c ∈ (Nat.toDigits 10 seq).reverse, (c != '#') = true := by
    intro c hc
    have hdigit := Nat.isDigit_of_mem_toDigits (by decide) (by decide) (List.mem_reverse.mp hc)
    refine bne_iff_ne.mpr fun heq => ?_
    rw [heq] at hdigit
    exact absurd hdigit (by decide)
  rw [toList_placeId, List.reverse_append, List.reverse_cons, List.append_assoc,
    List.takeWhile_append_of_pos hdigits]
  simp

theorem placeId_seq {name other : String} {i j : ℕ} (h : placeId name i = placeId other j) : i = j := by
  have hdigits := congrArg (fun text : String => text.toList.reverse.takeWhile (· != '#')) h
  simp only [placeId_digits] at hdigits
  have hvalue := congrArg (Nat.ofDigitChars 10 · 0) (List.reverse_injective hdigits)
  simpa [Nat.ofDigitChars_toDigits] using hvalue

theorem placeId_ne (name : String) (seq : ℕ) : placeId name seq ≠ name := by
  intro h
  have hlength := congrArg (fun text : String => text.toList.length) h
  simp only [toList_placeId, List.length_append, List.length_cons] at hlength
  omega

def callsOf (items : List IrItem) : List (String × String) := items.filterMap callOf

def callIdsOf (items : List IrItem) : List String := (callsOf items).map Prod.snd

/-- Each output refers to a call before it. -/
def Refers (items : List IrItem) : Prop :=
  ∀ before callId output parts isError after,
    items = before ++ .functionOutput callId output parts isError :: after → callId ∈ callIdsOf before

/-- Calls have ids by their places, outputs refer to calls and share none, and of the calls
of the latest turn the first ones of each name are answered. -/
structure Ledger (items : List IrItem) (calls : List (String × String)) (answered : List String) :
    Prop where
  seq : ∀ call ∈ callsOf items, ∃ k < items.length, call.2 = placeId call.1 k
  nodup : (callIdsOf items).Nodup
  among : calls.Sublist (callsOf items)
  refers : Refers items
  apart : (outputIds items).Nodup
  answered : ∀ name k call, (callsNamed calls name)[k]? = some call →
    (call.2 ∈ outputIds items ↔ k < answered.count name)

variable {items : List IrItem} {calls : List (String × String)} {answered : List String}

theorem callsOf_append (first second : List IrItem) :
    callsOf (first ++ second) = callsOf first ++ callsOf second := List.filterMap_append

theorem outputIds_append (first second : List IrItem) :
    outputIds (first ++ second) = outputIds first ++ outputIds second := List.filterMap_append

theorem callIdsOf_append (first second : List IrItem) :
    callIdsOf (first ++ second) = callIdsOf first ++ callIdsOf second := by
  rw [callIdsOf, callsOf_append, List.map_append]
  rfl

theorem Refers.mem (h : Refers items) {id : String} (hid : id ∈ outputIds items) :
    id ∈ callIdsOf items := by
  obtain ⟨item, hmem, hitem⟩ := List.mem_filterMap.mp hid
  obtain ⟨before, after, rfl⟩ := List.append_of_mem hmem
  cases item with
  | functionOutput callId output parts isError =>
    obtain rfl := Option.some.inj hitem
    rw [callIdsOf_append]
    exact List.mem_append_left _ (h before callId output parts isError after rfl)
  | _ => cases hitem

theorem Refers.concat (h : Refers items) {item : IrItem}
    (hitem : ∀ id, outputId item = some id → id ∈ callIdsOf items) : Refers (items ++ [item]) := by
  intro before callId output parts isError after hsplit
  rcases List.eq_nil_or_concat after with rfl | ⟨after, last, rfl⟩
  · obtain ⟨rfl, hlast⟩ := List.append_inj' hsplit rfl
    obtain rfl := List.singleton_inj.mp hlast
    exact hitem callId rfl
  · rw [List.concat_eq_append, ← List.cons_append, ← List.append_assoc] at hsplit
    exact h before callId output parts isError after (List.append_inj' hsplit rfl).1

theorem ledger_nil (h : callsOf items = []) (hout : outputIds items = []) : Ledger items [] [] := by
  refine ⟨?_, ?_, List.nil_sublist _, ?_, ?_, ?_⟩
  · rw [h]
    simp
  · rw [callIdsOf, h]
    exact List.nodup_nil
  · intro before callId output parts isError after hsplit
    have hmem : callId ∈ outputIds items := by
      rw [hsplit, outputIds_append]
      exact List.mem_append_right _ List.mem_cons_self
    rw [hout] at hmem
    cases hmem
  · rw [hout]
    exact List.nodup_nil
  · simp [callsNamed]

theorem Ledger.opened (h : Ledger items calls answered) : Ledger items [] [] :=
  ⟨h.seq, h.nodup, List.nil_sublist _, h.refers, h.apart, by simp [callsNamed]⟩

theorem Ledger.push (h : Ledger items calls answered) {item : IrItem} (hcall : callOf item = none)
    (hout : outputId item = none) : Ledger (items ++ [item]) calls answered := by
  have hcalls : callsOf (items ++ [item]) = callsOf items := by
    rw [callsOf_append]
    simp [callsOf, hcall]
  have houts : outputIds (items ++ [item]) = outputIds items := by
    rw [outputIds_append]
    simp [outputIds, hout]
  refine ⟨fun call hmem => ?_, ?_, ?_, h.refers.concat fun id hid => ?_, ?_, ?_⟩
  · rw [hcalls] at hmem
    obtain ⟨k, hk, hid⟩ := h.seq call hmem
    exact ⟨k, by rw [List.length_append]; omega, hid⟩
  · rw [callIdsOf, hcalls]
    exact h.nodup
  · rw [hcalls]
    exact h.among
  · cases hout.symm.trans hid
  · rw [houts]
    exact h.apart
  · rw [houts]
    exact h.answered

theorem placeId_fresh (h : Ledger items calls answered) (name : String) :
    placeId name items.length ∉ callIdsOf items := by
  intro hmem
  obtain ⟨call, hcall, hid⟩ := List.mem_map.mp hmem
  obtain ⟨k, hk, hplace⟩ := h.seq call hcall
  have := placeId_seq (hplace.symm.trans hid)
  omega

theorem callsNamed_append (first second : List (String × String)) (name : String) :
    callsNamed (first ++ second) name = callsNamed first name ++ callsNamed second name :=
  List.filter_append first second

/-- A call of the turn that is being read; none of its calls is answered yet. -/
theorem Ledger.push_call (h : Ledger items calls []) (name arguments : String)
    (signature : Option String) :
    Ledger (items ++ [.functionCall (placeId name items.length) name arguments signature])
      (calls ++ [(name, placeId name items.length)]) [] := by
  have hfresh := placeId_fresh h name
  have hcalls : callsOf (items ++ [.functionCall (placeId name items.length) name arguments signature]) =
      callsOf items ++ [(name, placeId name items.length)] := by
    rw [callsOf_append]
    rfl
  have houts : outputIds (items ++ [.functionCall (placeId name items.length) name arguments signature]) =
      outputIds items := by
    rw [outputIds_append]
    exact List.append_nil _
  refine ⟨fun call hmem => ?_, ?_, ?_, h.refers.concat (fun id hid => by cases hid), ?_,
    fun other k call hk => ?_⟩
  · rw [hcalls] at hmem
    rw [List.length_append, List.length_singleton]
    rcases List.mem_append.mp hmem with hmem | hmem
    · obtain ⟨k, hk, hid⟩ := h.seq call hmem
      exact ⟨k, by omega, hid⟩
    · obtain rfl := List.mem_singleton.mp hmem
      exact ⟨items.length, by omega, rfl⟩
  · rw [callIdsOf, hcalls, List.map_append]
    refine List.nodup_append.mpr ⟨h.nodup, List.nodup_singleton _, ?_⟩
    intro id hid other hother heq
    rw [List.map_singleton, List.mem_singleton] at hother
    rw [heq, hother] at hid
    exact hfresh hid
  · rw [hcalls]
    exact h.among.append (List.Sublist.refl _)
  · rw [houts]
    exact h.apart
  · rw [houts]
    rw [List.count_nil]
    refine iff_of_false (fun hmem => ?_) (Nat.not_lt_zero _)
    rw [callsNamed_append] at hk
    rcases List.mem_append.mp (List.mem_of_getElem? hk) with hold | hnew
    · obtain ⟨j, hj⟩ := List.mem_iff_getElem?.mp hold
      exact absurd ((h.answered other j call hj).mp hmem) (Nat.not_lt_zero _)
    · have hcall := List.mem_singleton.mp (List.mem_filter.mp hnew).1
      rw [hcall] at hmem
      exact hfresh (h.refers.mem hmem)

theorem Ledger.eq_of_id (h : Ledger items calls answered) {call other : String × String}
    (hcall : call ∈ calls) (hother : other ∈ calls) (hid : call.2 = other.2) : call = other :=
  List.inj_on_of_nodup_map h.nodup (h.among.subset hcall) (h.among.subset hother) hid

theorem mem_of_named {name : String} {k : ℕ} {call : String × String}
    (h : (callsNamed calls name)[k]? = some call) : call ∈ calls ∧ call.1 = name := by
  obtain ⟨hmem, hname⟩ := List.mem_filter.mp (List.mem_of_getElem? h)
  exact ⟨hmem, beq_iff_eq.mp hname⟩

theorem Ledger.named_inj (h : Ledger items calls answered) {name : String} {k j : ℕ}
    {call : String × String} (hk : (callsNamed calls name)[k]? = some call)
    (hj : (callsNamed calls name)[j]? = some call) : k = j := by
  have hnodup : (callsNamed calls name).Nodup :=
    ((List.filter_sublist).trans h.among).nodup (List.Nodup.of_map _ h.nodup)
  exact (List.getElem?_inj (List.getElem?_eq_some_iff.mp hk).1 hnodup).mp (hk.trans hj.symm)

theorem Ledger.push_output (h : Ledger items calls answered) {name : String} {call : String × String}
    (hnext : (callsNamed calls name)[answered.count name]? = some call) (output : String)
    (parts : List IrPart) :
    Ledger (items ++ [.functionOutput call.2 output parts false]) calls (answered ++ [name]) := by
  have hcalls : callsOf (items ++ [.functionOutput call.2 output parts false]) = callsOf items := by
    rw [callsOf_append]
    exact List.append_nil _
  have houts : outputIds (items ++ [.functionOutput call.2 output parts false]) =
      outputIds items ++ [call.2] := by
    rw [outputIds_append]
    rfl
  have hcall := mem_of_named hnext
  refine ⟨fun other hmem => ?_, ?_, ?_, h.refers.concat fun id hid => ?_, ?_, fun other k entry hk => ?_⟩
  · rw [hcalls] at hmem
    obtain ⟨k, hk, hid⟩ := h.seq other hmem
    exact ⟨k, by rw [List.length_append]; omega, hid⟩
  · rw [callIdsOf, hcalls]
    exact h.nodup
  · rw [hcalls]
    exact h.among
  · obtain rfl := Option.some.inj hid
    exact List.mem_map_of_mem (h.among.subset hcall.1)
  · rw [houts]
    refine List.nodup_append.mpr ⟨h.apart, List.nodup_singleton _, ?_⟩
    intro id hid other hother heq
    rw [heq, List.mem_singleton.mp hother] at hid
    exact absurd ((h.answered name _ call hnext).mp hid) (lt_irrefl _)
  · rw [houts, List.mem_append, List.mem_singleton, h.answered other k entry hk, List.count_append]
    by_cases hname : name = other
    · subst hname
      rw [List.count_singleton_self]
      refine ⟨fun hor => ?_, fun hlt => ?_⟩
      · rcases hor with hlt | hid
        · omega
        · have heq := h.eq_of_id (mem_of_named hk).1 hcall.1 hid
          have := h.named_inj hk (heq ▸ hnext)
          omega
      · by_cases hlast : k = answered.count name
        · rw [hlast, hnext] at hk
          exact Or.inr (congrArg Prod.snd (Option.some.inj hk).symm)
        · exact Or.inl (by omega)
    · rw [List.count_singleton, if_neg (by simpa using hname), Nat.add_zero]
      refine or_iff_left fun hid => hname ?_
      have heq := h.eq_of_id (mem_of_named hk).1 hcall.1 hid
      rw [← hcall.2, ← (mem_of_named hk).2, heq]

theorem find_from (used : List String) (named : List (String × String)) (n : ℕ)
    (h : ∀ k call, named[k]? = some call → (call.2 ∈ used ↔ k < n)) :
    named.find? (fun call => decide (call.2 ∉ used)) = named[n]? := by
  induction named generalizing n with
  | nil => rfl
  | cons call rest ih =>
    have hhead := h 0 call rfl
    cases n with
    | zero =>
      rw [List.find?_cons_of_pos (by simpa using mt hhead.mp (lt_irrefl 0))]
      rfl
    | succ n =>
      rw [List.find?_cons_of_neg (by simpa using hhead.mpr (Nat.succ_pos n)), List.getElem?_cons_succ]
      refine ih n fun k other hk => ?_
      rw [h (k + 1) other hk]
      omega

theorem callsNamed_cons (call : String × String) (rest : List (String × String)) (name : String) :
    callsNamed (call :: rest) name =
      if call.1 = name then call :: callsNamed rest name else callsNamed rest name := by
  rw [callsNamed, List.filter_cons]
  by_cases hname : call.1 = name
  · rw [if_pos hname, if_pos (beq_iff_eq.mpr hname)]
    rfl
  · rw [if_neg hname, if_neg (mt beq_iff_eq.mp hname)]
    rfl

theorem findSome_calls (name : String) (used : List String) (items : List IrItem) :
    items.findSome? (unmatchedId name used) =
      ((callsNamed (callsOf items) name).find? fun call => decide (call.2 ∉ used)).map Prod.snd := by
  induction items with
  | nil => rfl
  | cons item rest ih =>
    rw [List.findSome?_cons, ih, unmatchedId]
    cases hcall : callOf item with
    | none =>
      have hrest : callsOf (item :: rest) = callsOf rest := List.filterMap_cons_none hcall
      rw [hrest]
      rfl
    | some call =>
      have hrest : callsOf (item :: rest) = call :: callsOf rest := List.filterMap_cons_some hcall
      rw [hrest, Option.bind_some, callsNamed_cons]
      by_cases hname : call.1 = name
      · rw [if_pos hname]
        by_cases hused : call.2 ∈ used
        · rw [if_neg (fun h => h.2 hused), List.find?_cons_of_neg (by simpa using hused)]
        · rw [if_pos ⟨hname, hused⟩, List.find?_cons_of_pos (by simpa using hused)]
          rfl
      · rw [if_neg hname, if_neg (fun h => hname h.1)]

theorem Ledger.find_next (h : Ledger items calls answered) {turn : List IrItem}
    (hturn : callsOf turn = calls) (name : String) :
    turn.findSome? (unmatchedId name (outputIds items)) =
      ((callsNamed calls name)[answered.count name]?).map Prod.snd := by
  rw [findSome_calls, hturn, find_from _ _ (answered.count name) (h.answered name)]

end Wiremux.GeminiCallIds
