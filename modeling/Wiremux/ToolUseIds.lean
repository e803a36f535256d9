import Mathlib.Data.Finset.Card

set_option autoImplicit false

/-!
# Tool ids of a Messages request

A call id is rewritten to the characters that Messages takes. Two call ids that
become one text are kept apart by a numeric suffix, which is searched among the
ids that are in use.
-/
namespace Wiremux.ToolUseIds

def legal (c : Char) : Bool := c.isAlphanum || c == '_' || c == '-'

def LegalId (id : String) : Prop := id ≠ "" ∧ ∀ c ∈ id.toList, legal c = true

def sanitizeChars : Bool → List Char → List Char
  | _, [] => []
  | lastUnderscore, c :: rest =>
    if legal c then c :: sanitizeChars (c == '_') rest
    else if lastUnderscore then sanitizeChars true rest
    else '_' :: sanitizeChars true rest

def sanitizeMessagesToolUseId (callId : String) : String :=
  let out := sanitizeChars false callId.toList
  if out.isEmpty then "_" else String.ofList out

/-- Call ids and what they were assigned, in the order of their first sight. -/
abbrev ToolIds := List (String × String)

def withSuffix (base : String) (suffix : ℕ) : String := base ++ "_" ++ toString suffix

/-- The `while` loop, for at most `fuel` rounds. -/
def searchSuffix (used : List String) (base : String) : ℕ → String → ℕ → Option String
  | 0, _, _ => none
  | fuel + 1, candidate, suffix =>
    if candidate ∈ used then searchSuffix used base fuel (withSuffix base suffix) (suffix + 1)
    else some candidate

def unusedId (used : List String) (base : String) : String :=
  (searchSuffix used base (used.length + 1) base 2).getD base

def assignMessagesToolUseId (callId : String) (toolIds : ToolIds) : String × ToolIds :=
  match toolIds.lookup callId with
  | some existing => (existing, toolIds)
  | none =>
    let candidate := unusedId (toolIds.map Prod.snd) (sanitizeMessagesToolUseId callId)
    (candidate, toolIds ++ [(callId, candidate)])

/-- The ids assigned to a sequence of calls. -/
def assignAll : ToolIds → List String → List String × ToolIds
  | toolIds, [] => ([], toolIds)
  | toolIds, callId :: rest =>
    let assigned := assignMessagesToolUseId callId toolIds
    let more := assignAll assigned.2 rest
    (assigned.1 :: more.1, more.2)

theorem sanitizeChars_legal (last : Bool) (text : List Char) :
    ∀ c ∈ sanitizeChars last text, legal c = true := by
  induction text generalizing last with
  | nil => simp [sanitizeChars]
  | cons d rest ih =>
    unfold sanitizeChars
    intro c hc
    split at hc
    · rename_i hd
      rcases List.mem_cons.mp hc with rfl | hc
      · exact hd
      · exact ih _ c hc
    · split at hc
      · exact ih _ c hc
      · rcases List.mem_cons.mp hc with rfl | hc
        · decide
        · exact ih _ c hc

theorem sanitize_legal (callId : String) : LegalId (sanitizeMessagesToolUseId callId) := by
  unfold sanitizeMessagesToolUseId
  simp only
  split
  · exact ⟨by decide, List.all_eq_true.mp rfl⟩
  · rename_i hne
    refine ⟨fun hempty => hne ?_, ?_⟩
    · have hlist := congrArg String.toList hempty
      rw [String.toList_ofList] at hlist
      rw [hlist]
      rfl
    · rw [String.toList_ofList]
      exact sanitizeChars_legal _ _

theorem toList_withSuffix (base : String) (suffix : ℕ) :
    (withSuffix base suffix).toList = base.toList ++ '_' :: Nat.toDigits 10 suffix := by
  have hdigits : (toString suffix).toList = Nat.toDigits 10 suffix := Nat.toList_repr
  rw [withSuffix, String.toList_append, String.toList_append, hdigits]
  simp

theorem withSuffix_legal {base : String} (h : LegalId base) (suffix : ℕ) :
    LegalId (withSuffix base suffix) := by
  constructor
  · intro hempty
    have hlist := congrArg String.toList hempty
    rw [toList_withSuffix] at hlist
    simp at hlist
  · intro c hc
    rw [toList_withSuffix] at hc
    rcases List.mem_append.mp hc with hc | hc
    · exact h.2 c hc
    · rcases List.mem_cons.mp hc with rfl | hc
      · decide
      · have hdigit := Nat.isDigit_of_mem_toDigits (by decide) (by decide) hc
        simp [legal, Char.isAlphanum, hdigit]

theorem withSuffix_injective (base : String) : Function.Injective (withSuffix base) := by
  intro i j h
  have hlist := congrArg String.toList h
  rw [toList_withSuffix, toList_withSuffix] at hlist
  have hdigits := (List.cons.inj (List.append_cancel_left hlist)).2
  have hvalue := congrArg (Nat.ofDigitChars 10 · 0) hdigits
  simpa [Nat.ofDigitChars_toDigits] using hvalue

def candidateAt (base : String) : ℕ → String
  | 0 => base
  | k + 1 => withSuffix base (k + 2)

theorem candidateAt_legal {base : String} (h : LegalId base) (k : ℕ) :
    LegalId (candidateAt base k) := by
  cases k with
  | zero => exact h
  | succ k => exact withSuffix_legal h _

theorem withSuffix_ne (base : String) (suffix : ℕ) : withSuffix base suffix ≠ base := by
  intro h
  have hlist := congrArg (List.length ∘ String.toList) h
  simp only [Function.comp_apply, toList_withSuffix, List.length_append, List.length_cons] at hlist
  omega

theorem candidateAt_injective (base : String) : Function.Injective (candidateAt base) := by
  intro i j h
  cases i with
  | zero =>
    cases j with
    | zero => rfl
    | succ j => exact absurd h.symm (withSuffix_ne base _)
  | succ i =>
    cases j with
    | zero => exact absurd h (withSuffix_ne base _)
    | succ j =>
      have hsuffix := withSuffix_injective base h
      omega

theorem exists_unused (used : List String) (base : String) :
    ∃ k < used.length + 1, candidateAt base k ∉ used := by
  by_contra hall
  push Not at hall
  have hsub : (Finset.range (used.length + 1)).image (candidateAt base) ⊆ used.toFinset := by
    intro id hid
    obtain ⟨k, hk, rfl⟩ := Finset.mem_image.mp hid
    exact List.mem_toFinset.mpr (hall k (Finset.mem_range.mp hk))
  have hcard := Finset.card_le_card hsub
  rw [Finset.card_image_of_injective _ (candidateAt_injective base), Finset.card_range] at hcard
  have hused := List.toFinset_card_le used
  omega

theorem searchSuffix_spec (used : List String) (base : String) (fuel k j : ℕ) (hj : j < fuel)
    (hfree : candidateAt base (k + j) ∉ used) :
    ∃ i, candidateAt base i ∉ used ∧
      searchSuffix used base fuel (candidateAt base k) (k + 2) = some (candidateAt base i) := by
  induction fuel generalizing k j with
  | zero => exact absurd hj (Nat.not_lt_zero _)
  | succ fuel ih =>
    unfold searchSuffix
    by_cases hused : candidateAt base k ∈ used
    · rw [if_pos hused]
      cases j with
      | zero => exact absurd hused hfree
      | succ j =>
        refine ih (k + 1) j (Nat.lt_of_succ_lt_succ hj) ?_
        rwa [Nat.add_right_comm, Nat.add_assoc]
    · rw [if_neg hused]
      exact ⟨k, hused, rfl⟩

theorem searchSuffix_ends (used : List String) (base : String) :
    searchSuffix used base (used.length + 1) base 2 = some (unusedId used base) := by
  obtain ⟨k, hk, hfree⟩ := exists_unused used base
  obtain ⟨i, _, hsearch⟩ := searchSuffix_spec used base _ 0 k hk (by rwa [Nat.zero_add])
  have hstart : searchSuffix used base (used.length + 1) base 2 = some (candidateAt base i) := hsearch
  rw [unusedId, hstart]
  rfl

theorem unusedId_eq (used : List String) (base : String) :
    ∃ i, candidateAt base i ∉ used ∧ unusedId used base = candidateAt base i := by
  obtain ⟨k, hk, hfree⟩ := exists_unused used base
  obtain ⟨i, hi, hsearch⟩ := searchSuffix_spec used base _ 0 k hk (by rwa [Nat.zero_add])
  exact ⟨i, hi, Option.some.inj ((searchSuffix_ends used base).symm.trans hsearch)⟩

theorem unusedId_unused (used : List String) (base : String) : unusedId used base ∉ used := by
  obtain ⟨i, hi, hid⟩ := unusedId_eq used base
  rwa [hid]

theorem unusedId_legal (used : List String) {base : String} (h : LegalId base) :
    LegalId (unusedId used base) := by
  obtain ⟨i, _, hid⟩ := unusedId_eq used base
  rw [hid]
  exact candidateAt_legal h i

/-- Every id in use is legal, and no two calls share one. -/
structure Apart (toolIds : ToolIds) : Prop where
  legal : ∀ entry ∈ toolIds, LegalId entry.2
  values : (toolIds.map Prod.snd).Nodup

def Extends (before after : ToolIds) : Prop :=
  ∀ callId id, before.lookup callId = some id → after.lookup callId = some id

variable {toolIds : ToolIds} {callId id : String}

theorem apart_nil : Apart [] := ⟨by simp, List.nodup_nil⟩

theorem assign_apart (h : Apart toolIds) (callId : String) :
    Apart (assignMessagesToolUseId callId toolIds).2 := by
  unfold assignMessagesToolUseId
  split
  · exact h
  · have hunused := unusedId_unused (toolIds.map Prod.snd) (sanitizeMessagesToolUseId callId)
    constructor
    · intro entry hentry
      rcases List.mem_append.mp hentry with hentry | hentry
      · exact h.legal entry hentry
      · rw [List.mem_singleton.mp hentry]
        exact unusedId_legal _ (sanitize_legal callId)
    · rw [List.map_append, List.map_singleton]
      exact List.nodup_append.mpr ⟨h.values, List.nodup_singleton _, by
        intro used hmem new hnew heq
        have hnew := List.mem_singleton.mp hnew
        subst hnew
        exact hunused (by rw [← show used = unusedId _ _ from heq]; exact hmem)⟩

theorem assign_extends (toolIds : ToolIds) (callId : String) :
    Extends toolIds (assignMessagesToolUseId callId toolIds).2 := by
  intro other id hlookup
  unfold assignMessagesToolUseId
  split
  · exact hlookup
  · rw [List.lookup_append, hlookup]
    rfl

theorem assign_lookup (toolIds : ToolIds) (callId : String) :
    (assignMessagesToolUseId callId toolIds).2.lookup callId =
      some (assignMessagesToolUseId callId toolIds).1 := by
  unfold assignMessagesToolUseId
  cases hlookup : toolIds.lookup callId with
  | some existing => exact hlookup
  | none => simp [List.lookup_append, hlookup]

theorem assignAll_apart (h : Apart toolIds) (callIds : List String) :
    Apart (assignAll toolIds callIds).2 := by
  induction callIds generalizing toolIds with
  | nil => exact h
  | cons callId rest ih => exact ih (assign_apart h callId)

theorem assignAll_extends (toolIds : ToolIds) (callIds : List String) :
    Extends toolIds (assignAll toolIds callIds).2 := by
  induction callIds generalizing toolIds with
  | nil => exact fun _ _ h => h
  | cons callId rest ih => exact fun other id h => ih _ other id (assign_extends toolIds callId other id h)

def idIn (toolIds : ToolIds) (callId : String) : String := (toolIds.lookup callId).getD ""

/-- Each id that was assigned on the way is the one of the last table. -/
theorem assignAll_ids (toolIds : ToolIds) (callIds : List String) :
    (assignAll toolIds callIds).1 = callIds.map (idIn (assignAll toolIds callIds).2) ∧
      ∀ callId ∈ callIds, ((assignAll toolIds callIds).2.lookup callId).isSome = true := by
  induction callIds generalizing toolIds with
  | nil => exact ⟨rfl, by simp⟩
  | cons callId rest ih =>
    obtain ⟨hids, hfound⟩ := ih (assignMessagesToolUseId callId toolIds).2
    have hlast := assignAll_extends (assignMessagesToolUseId callId toolIds).2 rest callId _
      (assign_lookup toolIds callId)
    refine ⟨?_, ?_⟩
    · rw [assignAll, List.map_cons, ← hids]
      refine congrArg (· :: _) ?_
      rw [idIn, hlast]
      rfl
    · intro other hmem
      rcases List.mem_cons.mp hmem with rfl | hmem
      · rw [assignAll, hlast]
        rfl
      · exact hfound other hmem

theorem mem_of_lookup (h : toolIds.lookup callId = some id) : (callId, id) ∈ toolIds := by
  obtain ⟨front, back, hsplit, _⟩ := List.lookup_eq_some_iff.mp h
  rw [hsplit]
  exact List.mem_append_right _ List.mem_cons_self

theorem Apart.injective (h : Apart toolIds) {other : String} (hcall : toolIds.lookup callId = some id)
    (hother : toolIds.lookup other = some id) : callId = other :=
  congrArg Prod.fst (List.inj_on_of_nodup_map h.values (mem_of_lookup hcall) (mem_of_lookup hother) rfl)

/-- What `assigned` gives to the calls is legal and tells them apart. -/
structure Consistent (callIds : List String) (assigned : String → String) : Prop where
  legal : ∀ callId ∈ callIds, LegalId (assigned callId)
  apart : ∀ callId ∈ callIds, ∀ other ∈ callIds, assigned callId = assigned other ↔ callId = other

theorem assignAll_consistent (callIds : List String) :
    Consistent callIds (idIn (assignAll [] callIds).2) := by
  have hapart := assignAll_apart apart_nil callIds
  have hfound := (assignAll_ids [] callIds).2
  have hread : ∀ callId ∈ callIds, (assignAll [] callIds).2.lookup callId =
      some (idIn (assignAll [] callIds).2 callId) := by
    intro callId hmem
    obtain ⟨id, hid⟩ := Option.isSome_iff_exists.mp (hfound callId hmem)
    rw [idIn, hid]
    rfl
  constructor
  · intro callId hmem
    exact hapart.legal _ (mem_of_lookup (hread callId hmem))
  · intro callId hmem other hother
    refine ⟨fun heq => ?_, fun heq => heq ▸ rfl⟩
    exact hapart.injective (hread callId hmem) (heq ▸ hread other hother)

end Wiremux.ToolUseIds
