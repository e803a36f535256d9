import Mathlib.Data.List.TakeWhile
import Wiremux.PercentDecoding
import Wiremux.SplitText

set_option autoImplicit false

/-!
# The origin of a URL

Userinfo is cut behind the last `@` of the decoded authority. What is left has
no `@` and is its own origin.
-/
namespace Wiremux.UrlOrigin
open ChatDecoding (splitOnce)
open Utf8Lossy SseWriting PercentDecoding SplitText

def schemeEnd : List Char := [':', '/', '/']

def endsHost (c : Char) : Bool := ['/', '?', '#'].contains c

def endsHostByte (byte : UInt8) : Bool := [0x2F, 0x3F, 0x23].contains byte

def authorityOf (rest : List Char) : List Char := rest.takeWhile fun c => !endsHost c

def behindLastAt (decoded : List UInt8) : Option (List UInt8) :=
  if 0x40 ∈ decoded then some (decoded.reverse.takeWhile fun byte => byte != 0x40).reverse else none

def hostAfterUserinfo (authority : List Char) : List Char :=
  match behindLastAt (percentDecodeUntilStable (utf8 authority)) with
  | none => authority
  | some host => fromUtf8Lossy (host.takeWhile fun byte => !endsHostByte byte)

def redactUrlOrigin (raw : List Char) : List Char :=
  match splitOnce schemeEnd raw with
  | some (scheme, rest) => scheme ++ (schemeEnd ++ hostAfterUserinfo (authorityOf rest))
  | none => hostAfterUserinfo (authorityOf raw)

variable {authority : List Char} {decoded host userinfo : List UInt8}

theorem behindLastAt_some (h : behindLastAt decoded = some host) :
    host <:+ decoded ∧ 0x40 ∉ host := by
  unfold behindLastAt at h
  split at h
  · cases h
    constructor
    · rw [← List.reverse_prefix, List.reverse_reverse]
      exact List.takeWhile_prefix _
    · intro hmem
      have hall := List.mem_takeWhile_imp (List.mem_reverse.mp hmem)
      simp at hall
  · cases h

theorem behindLastAt_none (h : behindLastAt decoded = none) : 0x40 ∉ decoded := by
  unfold behindLastAt at h
  split at h
  · cases h
  · assumption

theorem behindLastAt_append (h : 0x40 ∉ host) : behindLastAt (userinfo ++ 0x40 :: host) = some host := by
  rw [behindLastAt, if_pos (List.mem_append_right _ List.mem_cons_self)]
  have hall : ∀ byte ∈ host.reverse, (byte != 0x40) = true := by
    intro byte hmem
    rw [bne_iff_ne]
    rintro rfl
    exact h (List.mem_reverse.mp hmem)
  rw [List.reverse_append, List.reverse_cons, List.append_assoc, List.takeWhile_append_of_pos hall,
    List.singleton_append, List.takeWhile_cons_of_neg (by decide), List.append_nil,
    List.reverse_reverse]

theorem mem_hostAfterUserinfo {c : Char} (hascii : c.toNat < 0x80)
    (hbytes : behindLastAt (percentDecodeUntilStable (utf8 authority)) = some host)
    (h : c ∈ hostAfterUserinfo authority) :
    UInt8.ofNat c.toNat ∈ host ∧ endsHostByte (UInt8.ofNat c.toNat) = false := by
  rw [hostAfterUserinfo, hbytes] at h
  have hmem := mem_fromUtf8Lossy hascii h
  exact ⟨(List.takeWhile_prefix _).subset hmem, by simpa using List.mem_takeWhile_imp hmem⟩

theorem at_notMem_host (authority : List Char) : '@' ∉ hostAfterUserinfo authority := by
  intro h
  cases hbytes : behindLastAt (percentDecodeUntilStable (utf8 authority)) with
  | some host =>
    exact (behindLastAt_some hbytes).2 (mem_hostAfterUserinfo (by decide) hbytes h).1
  | none =>
    rw [hostAfterUserinfo, hbytes] at h
    have hbyte : (0x40 : UInt8) ∈ utf8 authority := mem_utf8_ascii (c := '@') (by decide) h
    exact behindLastAt_none hbytes (mem_untilStable (by decide) (by decide) hbyte)

theorem host_plain {authority : List Char} (h : ∀ c ∈ authority, endsHost c = false) :
    ∀ c ∈ hostAfterUserinfo authority, endsHost c = false := by
  intro c hmem
  cases hbytes : behindLastAt (percentDecodeUntilStable (utf8 authority)) with
  | none =>
    rw [hostAfterUserinfo, hbytes] at hmem
    exact h c hmem
  | some host =>
    cases hends : endsHost c with
    | false => rfl
    | true =>
      simp only [endsHost, List.contains_cons, List.contains_nil, Bool.or_false, Bool.or_eq_true,
        beq_iff_eq] at hends
      rcases hends with rfl | rfl | rfl
      · exact absurd (mem_hostAfterUserinfo (by decide) hbytes hmem).2 (by decide)
      · exact absurd (mem_hostAfterUserinfo (by decide) hbytes hmem).2 (by decide)
      · exact absurd (mem_hostAfterUserinfo (by decide) hbytes hmem).2 (by decide)

theorem authorityOf_plain (rest : List Char) : ∀ c ∈ authorityOf rest, endsHost c = false := by
  intro c hmem
  simpa using List.mem_takeWhile_imp hmem

theorem authorityOf_eq_self {text : List Char} (h : ∀ c ∈ text, endsHost c = false) :
    authorityOf text = text :=
  List.takeWhile_eq_self_iff.mpr fun c hmem => by simp [h c hmem]

theorem hostAfterUserinfo_host (authority : List Char) :
    hostAfterUserinfo (hostAfterUserinfo authority) = hostAfterUserinfo authority := by
  cases hbytes : behindLastAt (percentDecodeUntilStable (utf8 authority)) with
  | none =>
    have hsame : hostAfterUserinfo authority = authority := by rw [hostAfterUserinfo, hbytes]
    rw [hsame, hsame]
  | some host =>
    obtain ⟨hsuffix, _⟩ := behindLastAt_some hbytes
    obtain ⟨shown, hshown⟩ : ∃ shown, shown = host.takeWhile fun byte => !endsHostByte byte :=
      ⟨_, rfl⟩
    have hhost : hostAfterUserinfo authority = fromUtf8Lossy shown := by
      rw [hostAfterUserinfo, hbytes, hshown]
    have hdecoded : Decoded shown := by
      have hwhole := (decoded_untilStable (utf8 authority)).suffix hsuffix
      rw [← List.takeWhile_append_dropWhile (p := fun byte => !endsHostByte byte)
        (l := host)] at hwhole
      rw [hshown]
      exact hwhole.front
    have hstable := untilStable_decoded (decoded_lossy hdecoded)
    have hat : behindLastAt (utf8 (fromUtf8Lossy shown)) = none := by
      rw [behindLastAt, if_neg]
      intro hmem
      obtain ⟨c, hc, hbyte⟩ := List.mem_flatMap.mp hmem
      have hchar := mem_utf8EncodeChar_ascii hbyte (by decide)
      rw [hchar, ← hhost] at hc
      exact at_notMem_host authority hc
    rw [hhost]
    conv_lhs => rw [hostAfterUserinfo, hstable, hat]

theorem redactUrlOrigin_idem (raw : List Char) :
    redactUrlOrigin (redactUrlOrigin raw) = redactUrlOrigin raw := by
  have hauthority : ∀ rest, authorityOf (hostAfterUserinfo (authorityOf rest)) =
      hostAfterUserinfo (authorityOf rest) := fun rest =>
    authorityOf_eq_self (host_plain (authorityOf_plain rest))
  cases hsplit : splitOnce schemeEnd raw with
  | some halves =>
    have hagain := splitOnce_behind hsplit (hostAfterUserinfo (authorityOf halves.2))
    have horigin : redactUrlOrigin raw =
        halves.1 ++ (schemeEnd ++ hostAfterUserinfo (authorityOf halves.2)) := by
      rw [redactUrlOrigin, hsplit]
    rw [horigin, redactUrlOrigin, hagain]
    simp only [hauthority, hostAfterUserinfo_host]
  | none =>
    have horigin : redactUrlOrigin raw = hostAfterUserinfo (authorityOf raw) := by
      rw [redactUrlOrigin, hsplit]
    have hslash : '/' ∉ hostAfterUserinfo (authorityOf raw) := fun hmem =>
      absurd (host_plain (authorityOf_plain raw) '/' hmem) (by decide)
    have hagain : splitOnce schemeEnd (hostAfterUserinfo (authorityOf raw)) = none :=
      splitOnce_none (by decide) hslash
    rw [horigin, redactUrlOrigin, hagain]
    simp only [hauthority, hostAfterUserinfo_host]

end Wiremux.UrlOrigin
