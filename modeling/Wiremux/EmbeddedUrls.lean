import Mathlib.Data.List.DropRight
import Wiremux.DocumentNames
import Wiremux.UrlOrigin

set_option autoImplicit false

/-!
# URLs in a text

The scan looks for `://`, goes back over the scheme and on to the next
delimiter. What it finds does not depend on what is put in its place.
-/
namespace Wiremux.EmbeddedUrls
open ChatDecoding (splitOnce)
open DocumentNames (isAsciiAlphanumeric)
open JsonValue (isWhitespace)
open SplitText UrlOrigin

def isAsciiAlphabetic (c : Char) : Bool := ('a' ≤ c && c ≤ 'z') || ('A' ≤ c && c ≤ 'Z')

def isSchemeChar (c : Char) : Bool := isAsciiAlphanumeric c || ['+', '.', '-'].contains c

def endsUrl (c : Char) : Bool := isWhitespace c || ['<', '>', '"', '\'', ')', ']', '}'].contains c

/-- The start of the scheme at the end of the text; the end where a letter does not lead it. -/
def schemeStartBefore (front : List Char) : ℕ :=
  let run := front.rtakeWhile isSchemeChar
  if run.head?.any isAsciiAlphabetic then front.length - run.length else front.length

/-- The loop: `front` is behind the index, `rest` is not read yet. -/
def mapUrls (f : List Char → List Char) (front rest : List Char) : List Char :=
  match _ : splitOnce schemeEnd rest with
  | none => rest
  | some (head, tail) =>
    let before := front ++ head
    let start := schemeStartBefore before
    if start = before.length then head ++ (schemeEnd ++ mapUrls f (before ++ schemeEnd) tail)
    else
      let span := tail.takeWhile fun c => !endsUrl c
      (before.take start).drop front.length ++
        (f (before.drop start ++ (schemeEnd ++ span)) ++
          mapUrls f (before ++ (schemeEnd ++ span)) (tail.dropWhile fun c => !endsUrl c))
termination_by rest.length
decreasing_by
  · exact length_tail_lt (List.cons_ne_nil _ _) ‹_›
  · exact (List.length_dropWhile_le _ _).trans_lt (length_tail_lt (List.cons_ne_nil _ _) ‹_›)

def redactEmbeddedUrls (s : List Char) : List Char := mapUrls redactUrlOrigin [] s

variable {front rest head tail scheme : List Char}

structure IsScheme (scheme : List Char) : Prop where
  leads : scheme.head?.any isAsciiAlphabetic = true
  chars : ∀ c ∈ scheme, isSchemeChar c = true

theorem isSchemeChar_range {c : Char} (h : isSchemeChar c = true) : 43 ≤ c.toNat ∧ c.toNat ≤ 122 := by
  have hle : ∀ a b : Char, a ≤ b → a.toNat ≤ b.toNat := fun a b hab => UInt32.le_iff_toNat_le.mp hab
  simp only [isSchemeChar, isAsciiAlphanumeric, Bool.or_eq_true, Bool.and_eq_true, decide_eq_true_eq,
    List.contains_cons, List.contains_nil, Bool.or_false, beq_iff_eq] at h
  rcases h with ((⟨hlow, hhigh⟩ | ⟨hlow, hhigh⟩) | ⟨hlow, hhigh⟩) | rfl | rfl | rfl
  · exact ⟨(by decide : 43 ≤ 'a'.toNat).trans (hle _ _ hlow), hle _ _ hhigh⟩
  · exact ⟨(by decide : 43 ≤ 'A'.toNat).trans (hle _ _ hlow),
      (hle _ _ hhigh).trans (by decide : 'Z'.toNat ≤ 122)⟩
  · exact ⟨(by decide : 43 ≤ '0'.toNat).trans (hle _ _ hlow),
      (hle _ _ hhigh).trans (by decide : '9'.toNat ≤ 122)⟩
  · decide
  · decide
  · decide

theorem endsUrl_not_scheme {c : Char} (h : endsUrl c = true) : isSchemeChar c = false := by
  cases hscheme : isSchemeChar c with
  | false => rfl
  | true =>
    obtain ⟨hlow, hhigh⟩ := isSchemeChar_range hscheme
    rw [endsUrl, Bool.or_eq_true] at h
    rcases h with hwhite | hdelimiter
    · simp only [isWhitespace, Bool.or_eq_true, Bool.and_eq_true, decide_eq_true_eq, beq_iff_eq] at hwhite
      omega
    · simp only [List.contains_cons, List.contains_nil, Bool.or_false, Bool.or_eq_true, beq_iff_eq]
        at hdelimiter
      rcases hdelimiter with rfl | rfl | rfl | rfl | rfl | rfl | rfl <;> cases hscheme

def Settled (front rest : List Char) : Prop :=
  ∀ head tail, rest = head ++ (schemeEnd ++ tail) →
    (front ++ head).rtakeWhile isSchemeChar = head.rtakeWhile isSchemeChar

theorem rtakeWhile_append_neg {c : Char} (hc : isSchemeChar c = false) (front more : List Char) :
    (front ++ c :: more).rtakeWhile isSchemeChar = more.rtakeWhile isSchemeChar := by
  induction more using List.reverseRecOn with
  | nil => rw [List.rtakeWhile_concat_neg _ _ _ (by simp [hc]), List.rtakeWhile_nil]
  | append_singleton more x ih =>
    rw [← List.cons_append, ← List.append_assoc, List.rtakeWhile_concat, List.rtakeWhile_concat, ih]

theorem settled_nil (rest : List Char) : Settled [] rest := fun _ _ _ => rfl

theorem settled_schemeEnd (front rest : List Char) : Settled (front ++ schemeEnd) rest := by
  intro head tail _
  have hslash := rtakeWhile_append_neg (c := '/') (by decide) (front ++ [':', '/']) head
  rw [List.append_assoc] at hslash ⊢
  exact hslash

theorem settled_delimited (front : List Char) (h : ∀ c ∈ rest.head?, endsUrl c = true) :
    Settled front rest := by
  rintro (_ | ⟨c, more⟩) tail rfl
  · exact absurd (h ':' rfl) (by decide)
  · have hc := endsUrl_not_scheme (h c rfl)
    exact (rtakeWhile_append_neg hc front more).trans (rtakeWhile_append_neg hc [] more).symm

theorem mapUrls_some (hsplit : splitOnce schemeEnd rest = some (head, tail))
    (f : List Char → List Char) :
    mapUrls f front rest =
      if schemeStartBefore (front ++ head) = (front ++ head).length then
        head ++ (schemeEnd ++ mapUrls f (front ++ head ++ schemeEnd) tail)
      else
        ((front ++ head).take (schemeStartBefore (front ++ head))).drop front.length ++
          (f ((front ++ head).drop (schemeStartBefore (front ++ head)) ++
              (schemeEnd ++ tail.takeWhile fun c => !endsUrl c)) ++
            mapUrls f (front ++ head ++ (schemeEnd ++ tail.takeWhile fun c => !endsUrl c))
              (tail.dropWhile fun c => !endsUrl c)) := by
  rw [mapUrls]
  split
  · rename_i hnone
    rw [hsplit] at hnone
    cases hnone
  · rename_i hsome
    rw [hsplit] at hsome
    cases hsome
    rfl

theorem mapUrls_none (hsplit : splitOnce schemeEnd rest = none) (f : List Char → List Char)
    (front : List Char) : mapUrls f front rest = rest := by
  rw [mapUrls]
  split
  · rfl
  · rename_i hsome
    rw [hsplit] at hsome
    cases hsome

/-- The scheme in front of the `://`, or nothing where no letter leads it. -/
def schemeOf (head : List Char) : Option (List Char) :=
  let run := head.rtakeWhile isSchemeChar
  if run.head?.any isAsciiAlphabetic then some run else none

theorem schemeOf_some (h : schemeOf head = some scheme) :
    IsScheme scheme ∧ head = head.rdropWhile isSchemeChar ++ scheme ∧ scheme ≠ [] := by
  rw [schemeOf] at h
  split at h
  · rename_i hlead
    cases h
    refine ⟨⟨hlead, fun c hmem => List.mem_rtakeWhile_imp hmem⟩,
      List.rdropWhile_append_rtakeWhile.symm, fun hnil => ?_⟩
    rw [hnil] at hlead
    cases hlead
  · cases h

theorem mapUrls_split (hsettled : Settled front rest)
    (hsplit : splitOnce schemeEnd rest = some (head, tail)) (f : List Char → List Char) :
    mapUrls f front rest = match schemeOf head with
      | some scheme => head.rdropWhile isSchemeChar ++
          (f (scheme ++ (schemeEnd ++ tail.takeWhile fun c => !endsUrl c)) ++
            mapUrls f (front ++ head ++ (schemeEnd ++ tail.takeWhile fun c => !endsUrl c))
              (tail.dropWhile fun c => !endsUrl c))
      | none => head ++ (schemeEnd ++ mapUrls f (front ++ head ++ schemeEnd) tail) := by
  have hrun := hsettled head tail (splitOnce_eq hsplit)
  cases hscheme : schemeOf head with
  | none =>
    have hstart : schemeStartBefore (front ++ head) = (front ++ head).length := by
      rw [schemeOf] at hscheme
      split at hscheme
      · cases hscheme
      · rename_i hlead
        rw [schemeStartBefore, hrun, if_neg hlead]
    rw [mapUrls_some hsplit, if_pos hstart]
  | some scheme =>
    obtain ⟨hlead, hhead, hne⟩ := schemeOf_some hscheme
    have htaken : scheme = head.rtakeWhile isSchemeChar := by
      rw [schemeOf] at hscheme
      split at hscheme
      · exact (Option.some.inj hscheme).symm
      · cases hscheme
    obtain ⟨plain, hplain⟩ : ∃ plain, plain = head.rdropWhile isSchemeChar := ⟨_, rfl⟩
    rw [← hplain] at hhead ⊢
    have hlength : (front ++ head).length - scheme.length = (front ++ plain).length := by
      rw [hhead]
      simp only [List.length_append]
      omega
    have hstart : schemeStartBefore (front ++ head) = (front ++ plain).length := by
      rw [schemeStartBefore, hrun, ← htaken, if_pos hlead.leads, hlength]
    have hfound : schemeStartBefore (front ++ head) ≠ (front ++ head).length := by
      have hpos := List.length_pos_of_ne_nil hne
      rw [hstart, hhead]
      simp only [List.length_append]
      omega
    have hbefore : front ++ head = front ++ plain ++ scheme := by rw [hhead, List.append_assoc]
    rw [mapUrls_some hsplit, if_neg hfound, hstart, hbefore, List.take_left, List.drop_left,
      List.drop_left]

theorem settled_dropWhile (front tail : List Char) :
    Settled front (tail.dropWhile fun c => !endsUrl c) := by
  refine settled_delimited front fun c hmem => ?_
  have hneg := List.head?_dropWhile_not (fun c => !endsUrl c) tail
  rw [Option.mem_def.mp hmem] at hneg
  simpa using hneg

theorem length_dropWhile_lt (hsplit : splitOnce schemeEnd rest = some (head, tail)) :
    (tail.dropWhile fun c => !endsUrl c).length < rest.length :=
  (List.length_dropWhile_le _ _).trans_lt (length_tail_lt (List.cons_ne_nil _ _) hsplit)

theorem mapUrls_front (hsettled : Settled front rest) (f : List Char → List Char) :
    mapUrls f front rest = mapUrls f [] rest := by
  induction hlength : rest.length using Nat.strong_induction_on generalizing front rest with
  | _ length ih =>
    subst hlength
    cases hsplit : splitOnce schemeEnd rest with
    | none => rw [mapUrls_none hsplit, mapUrls_none hsplit]
    | some halves =>
      obtain ⟨head, tail⟩ := halves
      have hshort := length_tail_lt (List.cons_ne_nil _ _) hsplit
      have hspan := length_dropWhile_lt hsplit
      rw [mapUrls_split hsettled hsplit, mapUrls_split (settled_nil rest) hsplit]
      cases schemeOf head with
      | none =>
        dsimp only
        rw [ih _ hshort (settled_schemeEnd _ _) rfl, ih _ hshort (settled_schemeEnd ([] ++ head) _) rfl]
      | some scheme =>
        dsimp only
        rw [ih _ hspan (settled_dropWhile _ _) rfl,
          ih _ hspan (settled_dropWhile ([] ++ head ++ _) _) rfl]

theorem mapUrls_skipped (hsplit : splitOnce schemeEnd rest = some (head, tail))
    (hscheme : schemeOf head = none) (f : List Char → List Char) :
    mapUrls f [] rest = head ++ (schemeEnd ++ mapUrls f [] tail) := by
  rw [mapUrls_split (settled_nil rest) hsplit, hscheme]
  dsimp only
  rw [mapUrls_front (settled_schemeEnd _ _)]

theorem mapUrls_url (hsplit : splitOnce schemeEnd rest = some (head, tail))
    (hscheme : schemeOf head = some scheme) (f : List Char → List Char) :
    mapUrls f [] rest = head.rdropWhile isSchemeChar ++
      (f (scheme ++ (schemeEnd ++ tail.takeWhile fun c => !endsUrl c)) ++
        mapUrls f [] (tail.dropWhile fun c => !endsUrl c)) := by
  rw [mapUrls_split (settled_nil rest) hsplit, hscheme]
  dsimp only
  rw [mapUrls_front (settled_dropWhile _ _)]

end Wiremux.EmbeddedUrls
