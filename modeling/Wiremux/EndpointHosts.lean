import Wiremux.UpstreamUrls

set_option autoImplicit false

/-!
# The host of an upstream URL

`rewrite_vertex_global_host` replaces a text wherever it stands first. The host of a URL
is replaced when it is that text as a whole.
-/
namespace Wiremux.EndpointHosts
open SplitText UpstreamUrls
open ChatDecoding (splitOnce)

def globalHost : List Char := "global-aiplatform.googleapis.com".toList

def vertexHost : List Char := "aiplatform.googleapis.com".toList

/-- What can stand behind a host, or behind a user name. -/
def endsHost (c : Char) : Bool := ['/', '?', '#', ':', '@'].contains c

/-- The scheme of a URL whose host is the global one, and what stands behind the host. -/
def globalParts (url : List Char) : Option (List Char × List Char) :=
  match splitOnce "://".toList url with
  | none => none
  | some (scheme, rest) =>
    if scheme.any endsHost then none
    else
      match stripPrefix? globalHost rest with
      | none => none
      | some after => if after.head?.all endsHost then some (scheme, after) else none

/-- The URL with its host replaced, when that is the global one. -/
def hostFixed (url : List Char) : List Char :=
  match globalParts url with
  | none => url
  | some (scheme, after) => scheme ++ ("://".toList ++ (vertexHost ++ after))

def globalMark : List Char := "://global-aiplatform.googleapis.com".toList

variable {url head tail sep more front back : List Char}

theorem splitOnce_longer (hsep : sep ≠ []) (h : splitOnce sep url = some (head, more ++ tail)) :
    splitOnce (sep ++ more) url = some (head, tail) := by
  induction url generalizing head with
  | nil =>
    rw [splitOnce] at h
    split at h
    · rename_i hempty
      exact absurd (List.isEmpty_iff.mp hempty) hsep
    · cases h
  | cons c rest ih =>
    rw [splitOnce_cons] at h ⊢
    split at h
    · rename_i hhere
      obtain ⟨hhead, hdrop⟩ := Prod.mk.inj (Option.some.inj h)
      have htext := (List.prefix_iff_eq_append.mp (List.isPrefixOf_iff_prefix.mp hhere)).symm
      rw [hdrop] at htext
      rw [htext, ← hhead, ← List.append_assoc, if_pos (List.isPrefixOf_iff_prefix.mpr (List.prefix_append _ _)),
        List.drop_left]
    · rename_i hlater
      obtain ⟨⟨front, back⟩, hrest, hhalves⟩ := Option.map_eq_some_iff.mp h
      obtain ⟨hhead, hback⟩ := Prod.mk.inj hhalves
      rw [show back = more ++ tail from hback] at hrest
      rw [if_neg, ih hrest, ← hhead]
      · rfl
      · intro hlong
        refine hlater (List.isPrefixOf_iff_prefix.mpr ?_)
        exact (List.prefix_append sep more).trans (List.isPrefixOf_iff_prefix.mp hlong)

theorem stripPrefix?_eq {pattern text rest : List Char} (h : stripPrefix? pattern text = some rest) :
    text = pattern ++ rest := by
  unfold stripPrefix? at h
  split at h
  · rename_i hprefix
    cases h
    exact (List.prefix_iff_eq_append.mp (List.isPrefixOf_iff_prefix.mp hprefix)).symm
  · cases h

theorem globalParts_eq {scheme after : List Char} (h : globalParts url = some (scheme, after)) :
    splitOnce globalMark url = some (scheme, after) := by
  unfold globalParts at h
  split at h
  · cases h
  · rename_i hsplit
    split at h
    · cases h
    · split at h
      · cases h
      · rename_i hstrip
        split at h
        · cases h
          rw [stripPrefix?_eq hstrip] at hsplit
          exact splitOnce_longer (by decide) hsplit
        · cases h

theorem rewriteVertexGlobalHost_eq (url : List Char) : rewriteVertexGlobalHost url =
    match splitOnce globalMark url with
    | none => url
    | some (head, tail) => head ++ ("://".toList ++ vertexHost ++ tail) := rfl

theorem rewriteVertexGlobalHost_iff (url : List Char) : rewriteVertexGlobalHost url = hostFixed url ↔
    (contains globalMark url = true → (globalParts url).isSome = true) := by
  rw [rewriteVertexGlobalHost_eq, hostFixed]
  cases hparts : globalParts url with
  | some parts =>
    obtain ⟨scheme, after⟩ := parts
    rw [globalParts_eq hparts]
    refine iff_of_true ?_ fun _ => rfl
    simp only [List.append_assoc]
  | none =>
    rw [contains]
    cases hsplit : splitOnce globalMark url with
    | none => exact iff_of_true rfl fun h => by cases h
    | some halves =>
      refine iff_of_false (fun heq => ?_) fun h => by cases h rfl
      have hlength := congrArg List.length (heq.trans (splitOnce_eq hsplit))
      have hmark : globalMark.length = 35 := by decide
      have hhost : ("://".toList ++ vertexHost).length = 28 := by decide
      simp only [List.length_append] at hlength hhost
      omega

def weight (text : List Char) : ℕ := text.countP fun c => !"global-".toList.contains c

theorem weight_append (front back : List Char) : weight (front ++ back) = weight front + weight back :=
  List.countP_append

/-- The weight of the text in front of a query. -/
def load (url : List Char) : ℕ := weight (url.takeWhile (!endsPath ·))

theorem load_middle {first second : List Char} (hfirst : ∀ c ∈ first, endsPath c = false)
    (hsecond : ∀ c ∈ second, endsPath c = false) (hweight : weight first = weight second)
    (front back : List Char) : load (front ++ (first ++ back)) = load (front ++ (second ++ back)) := by
  unfold load
  induction front with
  | nil =>
    have hplain : ∀ {text : List Char}, (∀ c ∈ text, endsPath c = false) →
        ∀ c ∈ text, (!endsPath c) = true := fun h c hc => by rw [h c hc]; rfl
    rw [List.nil_append, List.nil_append, List.takeWhile_append_of_pos (hplain hfirst),
      List.takeWhile_append_of_pos (hplain hsecond), weight_append, weight_append, hweight]
  | cons c rest ih =>
    rw [List.cons_append, List.cons_append]
    cases hc : endsPath c with
    | true => rw [List.takeWhile_cons_of_neg (by rw [hc]; decide), List.takeWhile_cons_of_neg (by rw [hc]; decide)]
    | false =>
      rw [List.takeWhile_cons_of_pos (by rw [hc]; rfl), List.takeWhile_cons_of_pos (by rw [hc]; rfl)]
      change weight ([c] ++ _) = weight ([c] ++ _)
      rw [weight_append, weight_append, ih]

theorem weight_marks : weight ("://".toList ++ vertexHost) = weight globalMark := by decide

theorem kept_rewrite (url : List Char) : weight (rewriteVertexGlobalHost url) = weight url ∧
    load (rewriteVertexGlobalHost url) = load url := by
  rw [rewriteVertexGlobalHost_eq]
  cases hsplit : splitOnce globalMark url with
  | none => exact ⟨rfl, rfl⟩
  | some halves =>
    have hurl := splitOnce_eq hsplit
    constructor
    · rw [hurl]
      simp only [weight_append, ← weight_marks]
    · refine (load_middle (List.all_iff_forall_prop.mp (by decide)) (List.all_iff_forall_prop.mp (by decide))
        weight_marks _ _).trans ?_
      rw [← hurl]

theorem kept_hostFixed (url : List Char) : weight (hostFixed url) = weight url ∧
    load (hostFixed url) = load url := by
  by_cases hparts : (globalParts url).isSome = true
  · rw [← (rewriteVertexGlobalHost_iff url).mpr fun _ => hparts]
    exact kept_rewrite url
  · rw [Bool.not_eq_true, Option.isSome_eq_false_iff, Option.isNone_iff_eq_none] at hparts
    rw [hostFixed, hparts]
    exact ⟨rfl, rfl⟩

end Wiremux.EndpointHosts
