import Wiremux.ShownUserinfo

set_option autoImplicit false

/-!
# Sanitised error texts

URLs are cut to their origin first. Then control characters go, secrets are
masked and the text is capped. A control character that hid a URL from the scan
shows it again.
-/
namespace Wiremux.SanitizedErrors
open ChatDecoding (splitOnce)
open DocumentNames (isAsciiAlphanumeric)
open SseWriting PercentDecoding SplitText UrlOrigin EmbeddedUrls ShownUserinfo

/-- A marker and the token behind it are masked. The source never ends on an empty marker;
none is given. -/
def redactRuns (marker : List Char) (inToken : Char → Bool) (s : List Char) : List Char :=
  if _ : marker = [] then s
  else
    match _ : splitOnce marker s with
    | none => s
    | some (head, tail) =>
      head ++ (redactedMark ++ redactRuns marker inToken (tail.dropWhile inToken))
termination_by s.length
decreasing_by exact (List.length_dropWhile_le _ _).trans_lt (length_tail_lt ‹_› ‹_›)

def redactPrefix (marker : String) : List Char → List Char :=
  redactRuns marker.toList fun c => isAsciiAlphanumeric c || c == '-' || c == '_'

def redactJwt : List Char → List Char :=
  redactRuns "eyJ".toList fun c => isAsciiAlphanumeric c || c == '-' || c == '_' || c == '.'

def redactSecretLooking (s : List Char) : List Char :=
  let out := redactPrefix "sk-ant-" s
  let out := redactPrefix "sk-" out
  let out := redactJwt out
  let out := redactPrefix "rt-" out
  let out := redactPrefix "ghp_" out
  let out := redactPrefix "gho_" out
  let out := redactPrefix "ghs_" out
  let out := redactPrefix "ghu_" out
  let out := redactPrefix "github_pat_" out
  redactPrefix "AKIA" out

def isControl (c : Char) : Bool := c.toNat < 0x20 || (0x7F ≤ c.toNat && c.toNat ≤ 0x9F)

def withoutControls (text : List Char) : List Char := text.filter fun c => !isControl c

def maxChars : ℕ := 200

def sanitizeOauthErrorText (text : String) : String :=
  let urlsFirst := redactEmbeddedUrls text.toList
  let summary := redactSecretLooking (withoutControls urlsFirst)
  String.ofList (if maxChars < summary.length then summary.take maxChars else summary)

variable {ends : Char → Bool} {marker s : List Char} {inToken : Char → Bool}

theorem redactRuns_none (h : splitOnce marker s = none) : redactRuns marker inToken s = s := by
  rw [redactRuns]
  split
  · rfl
  · split
    · rfl
    · rename_i hsome
      rw [h] at hsome
      cases hsome

theorem redactRuns_some {head tail : List Char} (hmarker : marker ≠ [])
    (h : splitOnce marker s = some (head, tail)) :
    redactRuns marker inToken s =
      head ++ (redactedMark ++ redactRuns marker inToken (tail.dropWhile inToken)) := by
  rw [redactRuns, dif_neg hmarker]
  split
  · rename_i hnone
    rw [h] at hnone
    cases hnone
  · rename_i hsome
    rw [h] at hsome
    cases hsome
    rfl

theorem showsLess_refl (text : List Char) : ShowsLess ends text text := by
  induction text with
  | nil => exact .cut []
  | cons c rest ih => exact .keep c ih

theorem showsLess_redactRuns (hne : marker ≠ []) (hmarker : ∀ c ∈ marker, ends c = false)
    (htoken : ∀ c, inToken c = true → ends c = false) (s : List Char) :
    ShowsLess ends (redactRuns marker inToken s) s := by
  induction hlength : s.length using Nat.strong_induction_on generalizing s with
  | _ length ih =>
    subst hlength
    cases hsplit : splitOnce marker s with
    | none =>
      rw [redactRuns_none hsplit]
      exact showsLess_refl s
    | some halves =>
      obtain ⟨head, tail⟩ := halves
      have hshort := (List.length_dropWhile_le inToken tail).trans_lt (length_tail_lt hne hsplit)
      have hmasked : ∀ c ∈ marker ++ tail.takeWhile inToken, ends c = false := by
        intro c hmem
        rcases List.mem_append.mp hmem with hmem | hmem
        · exact hmarker c hmem
        · exact htoken c (List.mem_takeWhile_imp hmem)
      have hall : s = head ++ ((marker ++ tail.takeWhile inToken) ++ tail.dropWhile inToken) := by
        rw [List.append_assoc, List.takeWhile_append_dropWhile, ← splitOnce_eq hsplit]
      have hmask := (ShowsLess.mask hmasked (ih _ hshort _ rfl)).append head
      rw [← hall] at hmask
      rwa [redactRuns_some hne hsplit]

/-- Token characters do not end a URL. -/
def Outside (ends : Char → Bool) : Prop := ∀ c, ends c = true → endsUrl c = true

theorem Outside.token {c : Char} (hends : Outside ends)
    (h : (isAsciiAlphanumeric c || c == '-' || c == '_' || c == '.') = true) : ends c = false := by
  by_contra hc
  have hend := hends c (by simpa using hc)
  have hscheme := endsUrl_not_scheme hend
  simp only [Bool.or_eq_true, beq_iff_eq] at h
  rcases h with ((h | rfl) | rfl) | rfl
  · rw [isSchemeChar, h] at hscheme
    cases hscheme
  · exact absurd hend (by decide)
  · exact absurd hend (by decide)
  · exact absurd hend (by decide)

theorem findsUserinfo_redactPrefix (hends : Outside ends) (marker : String) (hne : marker ≠ "")
    (hmarker : marker.toList.all fun c => isAsciiAlphanumeric c || c == '-' || c == '_' || c == '.')
    (h : findsUserinfo ends (redactPrefix marker s) = true) : findsUserinfo ends s = true := by
  refine ShowsLess.finds hends (showsLess_redactRuns (mt String.toList_eq_nil_iff.mp hne) (fun c hmem => ?_) (fun c hc => ?_) s) h
  · exact hends.token (List.all_eq_true.mp hmarker c hmem)
  · exact hends.token (by rw [hc, Bool.true_or])

theorem findsUserinfo_redactJwt (hends : Outside ends)
    (h : findsUserinfo ends (redactJwt s) = true) : findsUserinfo ends s = true := by
  have hmarker : "eyJ".toList.all fun c => isAsciiAlphanumeric c || c == '-' || c == '_' || c == '.' := rfl
  exact ShowsLess.finds hends (showsLess_redactRuns (List.cons_ne_nil _ _)
    (fun c hmem => hends.token (List.all_eq_true.mp hmarker c hmem)) (fun c hc => hends.token hc) s) h

theorem findsUserinfo_redactSecretLooking (hends : Outside ends)
    (h : findsUserinfo ends (redactSecretLooking s) = true) : findsUserinfo ends s = true := by
  unfold redactSecretLooking at h
  iterate 7 replace h := findsUserinfo_redactPrefix hends _ (by decide) rfl h
  replace h := findsUserinfo_redactJwt hends h
  iterate 2 replace h := findsUserinfo_redactPrefix hends _ (by decide) rfl h
  exact h

end Wiremux.SanitizedErrors
