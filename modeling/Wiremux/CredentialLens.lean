import Wiremux.CredentialWriteback
import Wiremux.DocumentPositions

set_option autoImplicit false

/-!
# Write-back as a lens on the document

`apply_tokens` changes the document in place, one pointer after another. A
single set is all or nothing; a write of several is not. What a write does to
the document it was given is described by position.
-/
namespace Wiremux.CredentialLens
open JsonValue CredentialPointers CredentialWriteback DocumentPositions

abbrev InPlace := Value × Except AuthError Unit

def andThen (r : InPlace) (next : Value → InPlace) : InPlace :=
  match r with
  | (doc, .ok _) => next doc
  | (doc, .error e) => (doc, .error e)

def setTokensInPlace (cur : Value) (tokens : List String) (value : Value) : InPlace :=
  match tokens with
  | [] => (cur, .error .emptyWriteRefused)
  | [last] =>
    match cur with
    | .object fields => ((Value.object fields).insert last value, .ok ())
    | .array items =>
      match arrayIndex last items with
      | .error e => (.array items, .error e)
      | .ok (i, _) => (.array (items.set i value), .ok ())
    | other => (other, .error .emptyWriteRefused)
  | token :: next :: rest =>
    match cur with
    | .object fields =>
      let inner := setTokensInPlace (descend ((Value.object fields).get? token)) (next :: rest) value
      ((Value.object fields).insert token inner.1, inner.2)
    | .array items =>
      match arrayIndex token items with
      | .error e => (.array items, .error e)
      | .ok (i, item) =>
        let inner := setTokensInPlace item (next :: rest) value
        (.array (items.set i inner.1), inner.2)
    | other => (other, .error .emptyWriteRefused)

def pointerSetInPlace (doc : Value) (pointer : String) (value : Value) : InPlace :=
  if pointer = "" then (doc, .error .emptyWriteRefused)
  else
    match pointerTokens pointer with
    | none => (doc, .error (.tokenProvider s!"invalid JSON pointer `{pointer}`"))
    | some tokens => setTokensInPlace doc tokens value

def setSomeInPlace (doc : Value) (ptr : Option String) (value : Option Value) : InPlace :=
  match ptr, value with
  | some ptr, some value => pointerSetInPlace doc ptr value
  | _, _ => (doc, .ok ())

def applyTokensInPlace (doc : Value) (w : TokenWrite) (now : ℕ) : InPlace :=
  if isBlank w.accessToken then (doc, .error .emptyWriteRefused)
  else if !doc.isObject then (doc, .error .emptyWriteRefused)
  else if rootPointers w then (doc, .error .emptyWriteRefused)
  else
    andThen (pointerSetInPlace doc w.accessPtr w.accessToken) fun doc =>
    andThen (setSomeInPlace doc w.refreshPtr (w.refreshToken.map Value.string)) fun doc =>
    andThen (setSomeInPlace doc w.expiresPtr
      (w.expiresPtr.map fun ptr => expiresValue doc ptr w now)) fun doc =>
    setSomeInPlace doc w.tokenUrlPtr ((w.tokenUrl.filter (· ≠ "")).map Value.string)

def settled (doc : Value) (r : Except AuthError Value) : InPlace :=
  match r with
  | .ok doc' => (doc', .ok ())
  | .error e => (doc, .error e)

theorem settled_map_insert {fields : List (String × Value)} {token : String} {inner : Value}
    {r : Except AuthError Value} (h : (∃ e, r = .error e) → (Value.object fields).get? token = some inner) :
    ((Value.object fields).insert token (settled inner r).1, (settled inner r).2) =
      settled (.object fields) (r.map fun x => (Value.object fields).insert token x) := by
  cases r with
  | ok x => rfl
  | error e => exact congrArg (·, Except.error e) (Value.insert_of_get? (h ⟨e, rfl⟩))

theorem refused_empty {tokens : List String} (hne : tokens ≠ []) :
    refused (.object []) tokens = false := by
  induction tokens with
  | nil => exact absurd rfl hne
  | cons t rest ih =>
    rcases rest with _ | ⟨next, rest⟩
    · rfl
    · exact ih (by simp)

theorem setTokensInPlace_eq (cur : Value) (tokens : List String) (value : Value) :
    setTokensInPlace cur tokens value = settled cur (setTokens cur tokens value) := by
  induction tokens generalizing cur with
  | nil => rfl
  | cons token rest ih =>
    rcases rest with _ | ⟨next, rest⟩
    · cases cur with
      | array items =>
        simp only [setTokensInPlace, setTokens]
        cases arrayIndex token items <;> rfl
      | _ => rfl
    · cases cur with
      | object fields =>
        rw [setTokens_below]
        simp only [setTokensInPlace, ih]
        refine settled_map_insert fun herror => ?_
        -- an empty object in the place of a missing child takes every set
        have hrefused := (setTokens_error_iff _ value _).mp herror
        cases hmember : (Value.object fields).get? token with
        | none =>
          rw [hmember] at hrefused
          exact absurd hrefused (by simp [descend, refused_empty])
        | some member =>
          rw [hmember] at hrefused
          cases member with
          | object _ => rfl
          | array _ => rfl
          | _ => exact absurd hrefused (by simp [descend, refused_empty])
      | array items =>
        simp only [setTokensInPlace, setTokens]
        rcases arrayIndex_eq token items with ⟨i, item, _, hitem, hok⟩ | ⟨_, e, herror⟩
        · simp only [hok, ih]
          cases setTokens item (next :: rest) value with
          | ok x => rfl
          | error e => simp only [settled, Except.map, set_self hitem]
        · simp only [herror]
          rfl
      | _ => rfl

def refusedAt (doc : Value) (pointer : String) : Bool :=
  (pointerTokens pointer).all (refused doc)

def replacesAt (doc : Value) (pointer : String) : Bool :=
  (pointerTokens pointer).any (replaces doc)

/-- The position is at or below the one the pointer leads to. -/
def CoversAt (doc : Value) (pointer : String) (us : List String) : Prop :=
  ∃ ts, pointerTokens pointer = some ts ∧ Covers doc ts us

/-- Two pointers neither of which leads to or below the place of the other. -/
def ApartAt (doc : Value) (p q : String) : Prop :=
  ∀ ts us, pointerTokens p = some ts → pointerTokens q = some us → Apart doc ts us

instance (doc : Value) (p q : String) : Decidable (ApartAt doc p q) :=
  decidable_of_iff
    (∀ ts ∈ pointerTokens p, ∀ us ∈ pointerTokens q, Apart doc ts us)
    ⟨fun h ts us hts hus => h ts hts us hus, fun h ts hts us hus => h ts us hts hus⟩

variable {doc doc' value : Value} {p q : String}

theorem pointerSet_refused (h : refusedAt doc p = true) :
    ∃ e, pointerSetInPlace doc p value = (doc, .error e) := by
  unfold pointerSetInPlace
  split
  · exact ⟨_, rfl⟩
  · cases htokens : pointerTokens p with
    | none => exact ⟨_, rfl⟩
    | some tokens =>
      rw [refusedAt, htokens] at h
      obtain ⟨e, he⟩ := (setTokens_error_iff doc value tokens).mpr h
      exact ⟨e, by simp only [setTokensInPlace_eq, he, settled]⟩

theorem pointerSet_accepted (h : refusedAt doc p = false) (value : Value) :
    ∃ ts doc', pointerTokens p = some ts ∧ setTokens doc ts value = .ok doc' ∧
      pointerSetInPlace doc p value = (doc', .ok ()) := by
  cases htokens : pointerTokens p with
  | none =>
    rw [refusedAt, htokens] at h
    cases h
  | some ts =>
    rw [refusedAt, htokens] at h
    have hne : p ≠ "" := by
      rintro rfl
      cases htokens
    cases hset : setTokens doc ts value with
    | error e =>
      have hrefused := (setTokens_error_iff doc value ts).mp ⟨e, hset⟩
      rw [Option.all_some, hrefused] at h
      cases h
    | ok doc' =>
      refine ⟨ts, doc', rfl, hset, ?_⟩
      simp only [pointerSetInPlace, if_neg hne, htokens, setTokensInPlace_eq, hset]
      rfl

theorem pointerGet_tokens {ts : List String} (h : pointerTokens p = some ts) (doc : Value) :
    pointerGet doc p = getTokens doc ts := by
  have hne : p ≠ "" := by
    rintro rfl
    cases h
  rw [pointerGet, if_neg hne, h, Option.bind_some]

theorem pointerTokens_ne_nil {ts : List String} (h : pointerTokens p = some ts) : ts ≠ [] := by
  unfold pointerTokens at h
  split at h
  · rintro rfl
    exact List.splitOn_ne_nil _ _ (List.map_eq_nil_iff.mp (Option.some.inj h))
  · cases h

/-- The set through a pointer, where there is one and a value for it. -/
def pairOf (ptr : Option String) (value : Option Value) : List (String × Value) :=
  (ptr.bind fun p => value.map fun v => (p, v)).toList

def tokenWrites (w : TokenWrite) : List (String × Value) :=
  (w.accessPtr, .string w.accessToken) :: pairOf w.refreshPtr (w.refreshToken.map .string)

def expiryWrites (doc : Value) (w : TokenWrite) (now : ℕ) : List (String × Value) :=
  pairOf w.expiresPtr (w.expiresPtr.map fun p => expiresValue doc p w now)

def urlWrites (w : TokenWrite) : List (String × Value) :=
  pairOf w.tokenUrlPtr ((w.tokenUrl.filter (· ≠ "")).map .string)

/-- The sets of a write, in order, with the values they write. -/
def written (doc : Value) (w : TokenWrite) (now : ℕ) : List (String × Value) :=
  tokenWrites w ++ (expiryWrites doc w now ++ urlWrites w)

def setEach : Value → List (String × Value) → InPlace
  | doc, [] => (doc, .ok ())
  | doc, p :: ps => andThen (pointerSetInPlace doc p.1 p.2) fun doc => setEach doc ps

theorem setEach_refused {ps : List (String × Value)} (after : List (String × Value)) {p : String × Value}
    {d : Value} (hps : setEach doc ps = (d, .ok ())) (hp : refusedAt d p.1 = true) :
    ∃ e, setEach doc (ps ++ p :: after) = (d, .error e) := by
  induction ps generalizing doc with
  | nil =>
    obtain rfl : doc = d := congrArg Prod.fst hps
    obtain ⟨e, he⟩ := @pointerSet_refused doc p.2 p.1 hp
    exact ⟨e, by simp only [List.nil_append, setEach, he, andThen]⟩
  | cons q ps ih =>
    simp only [setEach, List.cons_append] at hps ⊢
    cases hq : pointerSetInPlace doc q.1 q.2 with
    | mk next result =>
      rw [hq] at hps
      cases result with
      | error e => cases hps
      | ok _ => exact ih hps

theorem get_apart {ts : List String} (hp : pointerTokens p = some ts)
    (hset : setTokens doc ts value = .ok doc') (hapart : ApartAt doc p q)
    (hq : ∃ us, pointerTokens q = some us) : pointerGet doc' q = pointerGet doc q := by
  obtain ⟨us, hus⟩ := hq
  rw [pointerGet_tokens hus, pointerGet_tokens hus]
  exact getTokens_of_apart hset (hapart ts us hp hus)

theorem refusedAt_apart {ts : List String} (hp : pointerTokens p = some ts)
    (hset : setTokens doc ts value = .ok doc') (hapart : ApartAt doc p q) :
    refusedAt doc' q = refusedAt doc q := by
  unfold refusedAt
  cases hus : pointerTokens q with
  | none => rfl
  | some us => exact refused_setTokens hset (hapart ts us hp hus).1

theorem replacesAt_apart {ts : List String} (hp : pointerTokens p = some ts)
    (hset : setTokens doc ts value = .ok doc') (hclear : replaces doc ts = false)
    (hapart : ApartAt doc p q) : replacesAt doc' q = replacesAt doc q := by
  unfold replacesAt
  cases hus : pointerTokens q with
  | none => rfl
  | some us => exact replaces_setTokens hset hclear (hapart ts us hp hus).1

theorem apartAt_kept {ts : List String} {q r : String} (hp : pointerTokens p = some ts)
    (hset : setTokens doc ts value = .ok doc') (hq : ApartAt doc p q) (hr : ApartAt doc p r)
    (hqr : ApartAt doc q r) : ApartAt doc' q r := by
  intro us vs hus hvs
  have hposQ := position_setTokens hset (hq ts us hp hus).1
  have hposR := position_setTokens hset (hr ts vs hp hvs).1
  have := hqr us vs hus hvs
  unfold Apart Covers at this ⊢
  rw [hposQ, hposR]
  exact this

theorem apartAt_own {ts : List String} {q : String} (hp : pointerTokens p = some ts)
    (hset : setTokens doc ts value = .ok doc') (hq : ApartAt doc p q) : ApartAt doc' q p := by
  intro us vs hus hvs
  obtain rfl : ts = vs := Option.some.inj (hp.symm.trans hvs)
  have hposQ := position_setTokens hset (hq ts us hp hus).1
  have := (hq ts us hp hus).symm
  unfold Apart Covers at this ⊢
  rw [hposQ, position_self hset]
  exact this

variable {ps : List (String × Value)}

/-- Pairwise apart in the document. -/
abbrev AllApart (doc : Value) (ps : List (String × Value)) : Prop :=
  ps.Pairwise fun a b => ApartAt doc a.1 b.1

theorem AllApart.after {ts : List String} {p : String × Value} (h : AllApart doc (p :: ps))
    (hp : pointerTokens p.1 = some ts) (hset : setTokens doc ts value = .ok doc') :
    AllApart doc' ps := by
  obtain ⟨hhead, htail⟩ := List.pairwise_cons.mp h
  refine List.Pairwise.imp_of_mem ?_ htail
  intro q r hq hr hqr
  exact apartAt_kept hp hset (hhead q hq) (hhead r hr) hqr

/-- A write none of whose pointers is refused is done, reads back, and leaves
what stands apart from all of them. -/
theorem setEach_accepted (hapart : AllApart doc ps) (hok : ∀ p ∈ ps, refusedAt doc p.1 = false) :
    ∃ doc', setEach doc ps = (doc', .ok ()) ∧ (∀ p ∈ ps, pointerGet doc' p.1 = some p.2) ∧
      ∀ q, (∃ us, pointerTokens q = some us) → (∀ p ∈ ps, ApartAt doc p.1 q) →
        pointerGet doc' q = pointerGet doc q ∧ refusedAt doc' q = refusedAt doc q := by
  induction ps generalizing doc with
  | nil => exact ⟨doc, rfl, by simp, fun q _ _ => ⟨rfl, rfl⟩⟩
  | cons p ps ih =>
    obtain ⟨ts, doc1, hts, hset, hstep⟩ := pointerSet_accepted (hok p (by simp)) p.2
    obtain ⟨hhead, _⟩ := List.pairwise_cons.mp hapart
    have hok1 : ∀ q ∈ ps, refusedAt doc1 q.1 = false := by
      intro q hq
      rw [refusedAt_apart hts hset (hhead q hq)]
      exact hok q (by simp [hq])
    obtain ⟨doc', hrest, hread, hframe⟩ := ih (hapart.after hts hset) hok1
    refine ⟨doc', ?_, ?_, ?_⟩
    · simp only [setEach, hstep, andThen, hrest]
    · intro q hq
      rcases List.mem_cons.mp hq with rfl | hq
      · rw [(hframe q.1 ⟨ts, hts⟩ fun r hr => apartAt_own hts hset (hhead r hr)).1,
          pointerGet_tokens hts]
        exact getTokens_setTokens hset
      · exact hread q hq
    · intro q hq hall
      have hfirst := hall p (by simp)
      obtain ⟨hget, hrefused⟩ := hframe q hq fun r hr =>
        apartAt_kept hts hset (hhead r hr) hfirst (hall r (by simp [hr]))
      exact ⟨hget.trans (get_apart hts hset hfirst hq),
        hrefused.trans (refusedAt_apart hts hset hfirst)⟩

theorem accepted_of_setEach (hapart : AllApart doc ps) (h : setEach doc ps = (doc', .ok ())) :
    ∀ p ∈ ps, refusedAt doc p.1 = false := by
  induction ps generalizing doc with
  | nil => simp
  | cons p ps ih =>
    cases hp : refusedAt doc p.1 with
    | true =>
      obtain ⟨e, he⟩ := @pointerSet_refused doc p.2 p.1 hp
      simp only [setEach, he, andThen] at h
      cases h
    | false =>
      obtain ⟨ts, doc1, hts, hset, hstep⟩ := pointerSet_accepted hp p.2
      obtain ⟨hhead, _⟩ := List.pairwise_cons.mp hapart
      simp only [setEach, hstep, andThen] at h
      intro q hq
      rcases List.mem_cons.mp hq with rfl | hq
      · exact hp
      · rw [← refusedAt_apart hts hset (hhead q hq)]
        exact ih (hapart.after hts hset) h q hq

/-- The node at a position is as before, or an object where a parent of a
written pointer was missing. -/
def KeptBy (doc doc' : Value) (ps : List (String × Value)) (us : List String) : Prop :=
  (getTokens doc' us).map node = (getTokens doc us).map node ∨
    getTokens doc us = none ∧
      (∃ p ∈ ps, ∃ ts, pointerTokens p.1 = some ts ∧ Covers doc us ts) ∧
      (getTokens doc' us).map node = some (.object [])

theorem setEach_kept (hapart : AllApart doc ps) (hok : ∀ p ∈ ps, refusedAt doc p.1 = false)
    (hclear : ∀ p ∈ ps, replacesAt doc p.1 = false) (h : setEach doc ps = (doc', .ok ()))
    {us : List String} (hus : ∀ p ∈ ps, ¬ CoversAt doc p.1 us) : KeptBy doc doc' ps us := by
  induction ps generalizing doc with
  | nil =>
    obtain rfl : doc = doc' := congrArg Prod.fst h
    exact .inl rfl
  | cons p ps ih =>
    obtain ⟨ts, doc1, hts, hset, hstep⟩ := pointerSet_accepted (hok p (by simp)) p.2
    obtain ⟨hhead, _⟩ := List.pairwise_cons.mp hapart
    have hclearP : replaces doc ts = false := by
      have := hclear p (by simp)
      rwa [replacesAt, hts] at this
    have husP : ¬ Covers doc ts us := fun hcovers => hus p (by simp) ⟨ts, hts, hcovers⟩
    have hposUs := position_setTokens hset husP
    -- the other pointers stand where they stood
    have hpos : ∀ q ∈ ps, ∀ vs, pointerTokens q.1 = some vs → position doc1 vs = position doc vs :=
      fun q hq vs hvs => position_setTokens hset (hhead q hq ts vs hts hvs).1
    have hok1 : ∀ q ∈ ps, refusedAt doc1 q.1 = false := by
      intro q hq
      rw [refusedAt_apart hts hset (hhead q hq)]
      exact hok q (by simp [hq])
    have hclear1 : ∀ q ∈ ps, replacesAt doc1 q.1 = false := by
      intro q hq
      rw [replacesAt_apart hts hset hclearP (hhead q hq)]
      exact hclear q (by simp [hq])
    have hus1 : ∀ q ∈ ps, ¬ CoversAt doc1 q.1 us := by
      rintro q hq ⟨vs, hvs, hcovers⟩
      refine hus q (by simp [hq]) ⟨vs, hvs, ?_⟩
      unfold Covers at hcovers ⊢
      rwa [hpos q hq vs hvs, hposUs] at hcovers
    simp only [setEach, hstep, andThen] at h
    have hfirst := kept_of_set hset hclearP husP
    rcases ih (hapart.after hts hset) hok1 hclear1 h hus1 with
      hsame | ⟨hnone, ⟨q, hq, vs, hvs, hcovers⟩, hobject⟩
    · rcases hfirst with hsame1 | ⟨hnone1, hcovers1, hobject1⟩
      · exact .inl (hsame.trans hsame1)
      · exact .inr ⟨hnone1, ⟨p, by simp, ts, hts, hcovers1⟩, hsame.trans hobject1⟩
    · refine .inr ⟨?_, ⟨q, by simp [hq], vs, hvs, ?_⟩, hobject⟩
      · rcases hfirst with hsame1 | ⟨hnone1, _, _⟩
        · rw [hnone] at hsame1
          exact Option.map_eq_none_iff.mp hsame1.symm
        · exact hnone1
      · unfold Covers at hcovers ⊢
        rwa [hpos q hq vs hvs, hposUs] at hcovers

theorem setEach_self (h : ∀ p ∈ ps, pointerGet doc p.1 = some p.2)
    (hok : ∀ p ∈ ps, refusedAt doc p.1 = false) : setEach doc ps = (doc, .ok ()) := by
  induction ps with
  | nil => rfl
  | cons p ps ih =>
    obtain ⟨ts, doc1, hts, hset, hstep⟩ := pointerSet_accepted (hok p (by simp)) p.2
    have hget : getTokens doc ts = some p.2 := by
      rw [← pointerGet_tokens hts]
      exact h p (by simp)
    obtain rfl : doc = doc1 :=
      Except.ok.inj ((setTokens_getTokens (pointerTokens_ne_nil hts) hget).symm.trans hset)
    simp only [setEach, hstep, andThen]
    exact ih (fun q hq => h q (by simp [hq])) fun q hq => hok q (by simp [hq])

theorem setEach_append (doc : Value) (xs ys : List (String × Value)) :
    setEach doc (xs ++ ys) = andThen (setEach doc xs) fun doc => setEach doc ys := by
  induction xs generalizing doc with
  | nil => rfl
  | cons x xs ih =>
    simp only [List.cons_append, setEach]
    cases pointerSetInPlace doc x.1 x.2 with
    | mk next result =>
      cases result with
      | ok _ => exact ih next
      | error e => rfl

theorem andThen_done (r : InPlace) : andThen r (fun doc => (doc, .ok ())) = r := by
  obtain ⟨doc, result⟩ := r
  cases result <;> rfl

theorem setSomeInPlace_eq (doc : Value) (ptr : Option String) (value : Option Value) :
    setSomeInPlace doc ptr value = setEach doc (pairOf ptr value) := by
  cases ptr with
  | none => rfl
  | some p =>
    cases value with
    | none => rfl
    | some v => exact (andThen_done _).symm

theorem andThen_assoc (r : InPlace) (f g : Value → InPlace) :
    andThen (andThen r f) g = andThen r fun doc => andThen (f doc) g := by
  obtain ⟨doc, result⟩ := r
  cases result <;> rfl

theorem mem_expiryWrites {w : TokenWrite} {now : ℕ} {p : String} (hp : w.expiresPtr = some p) :
    (p, expiresValue doc p w now) ∈ expiryWrites doc w now := by
  simp [expiryWrites, pairOf, hp]

theorem expiryWrites_kept {w : TokenWrite} {now : ℕ} {mid : Value}
    (hroot : rootPointers w = false) (hapart : AllApart doc (written doc w now))
    (hmid : setEach doc (tokenWrites w) = (mid, .ok ())) :
    expiryWrites mid w now = expiryWrites doc w now := by
  obtain ⟨htokens, _, hacross⟩ := List.pairwise_append.mp hapart
  obtain ⟨mid', hmid', _, hframe⟩ := setEach_accepted htokens (accepted_of_setEach htokens hmid)
  obtain rfl : mid = mid' := congrArg Prod.fst (hmid.symm.trans hmid')
  unfold expiryWrites
  cases hp : w.expiresPtr with
  | none => rfl
  | some p =>
    have hget : pointerGet mid p = pointerGet doc p := by
      cases htokens : pointerTokens p with
      | none =>
        have hne : p ≠ "" := by
          rintro rfl
          simp [rootPointers, hp] at hroot
        simp only [pointerGet, if_neg hne, htokens, Option.bind_none]
      | some us =>
        refine (hframe p ⟨us, htokens⟩ fun q hq => ?_).1
        exact hacross q hq _ (List.mem_append_left _ (mem_expiryWrites hp))
    have hvalue : expiresValue mid p w now = expiresValue doc p w now := by
      simp only [expiresValue, hget]
    simp only [Option.map_some, hvalue]

theorem applyTokensInPlace_eq {w : TokenWrite} {now : ℕ} (hobject : doc.isObject = true)
    (hblank : isBlank w.accessToken = false) (hroot : rootPointers w = false)
    (hapart : AllApart doc (written doc w now)) :
    applyTokensInPlace doc w now = setEach doc (written doc w now) := by
  simp only [applyTokensInPlace, hblank, hobject, hroot, Bool.false_eq_true, if_false, Bool.not_true,
    setSomeInPlace_eq]
  rw [← andThen_assoc]
  change andThen (setEach doc (tokenWrites w)) (fun mid =>
    andThen (setEach mid (expiryWrites mid w now)) fun last => setEach last (urlWrites w)) = _
  rw [written, setEach_append]
  cases hmid : setEach doc (tokenWrites w) with
  | mk mid result =>
    cases result with
    | error e => rfl
    | ok _ => simp only [andThen, expiryWrites_kept hroot hapart hmid, setEach_append]

/-- What a write in place does to the document it is given. -/
structure Lens (doc : Value) (w : TokenWrite) (now : ℕ) : Prop where
  readBack : (applyTokensInPlace doc w now).2 = .ok () →
    ∀ p ∈ written doc w now, pointerGet (applyTokensInPlace doc w now).1 p.1 = some p.2
  others : (applyTokensInPlace doc w now).2 = .ok () →
    ∀ us, (∀ p ∈ written doc w now, ¬ CoversAt doc p.1 us) →
      KeptBy doc (applyTokensInPlace doc w now).1 (written doc w now) us
  parents : (applyTokensInPlace doc w now).2 = .ok () →
    ∀ p ∈ written doc w now, ∀ us t rest, pointerTokens p.1 = some (us ++ t :: rest) →
      ∀ x, getTokens doc us = some x → isContainer x = true
  unchanged : ∀ e, (applyTokensInPlace doc w now).2 = .error e →
    (applyTokensInPlace doc w now).1 = doc

/-- A write that replaces no scalar, or that is refused before it changes anything. -/
def Writable (doc : Value) (w : TokenWrite) (now : ℕ) : Prop :=
  rootPointers w = true ∨
    ((∀ p ∈ written doc w now, refusedAt doc p.1 = false) →
      ∀ p ∈ written doc w now, replacesAt doc p.1 = false) ∧
    ∀ before p after, written doc w now = before ++ p :: after →
      (∀ q ∈ before, refusedAt doc q.1 = false) → refusedAt doc p.1 = true →
      ∀ q ∈ before, pointerGet doc q.1 = some q.2

theorem rootPointers_refused {w : TokenWrite} {now : ℕ} (hroot : rootPointers w = true) :
    applyTokensInPlace doc w now = (doc, .error .emptyWriteRefused) := by
  simp only [applyTokensInPlace, hroot, if_true, ite_self]

theorem exists_first_refused (h : ¬ ∀ p ∈ ps, refusedAt doc p.1 = false) :
    ∃ before p after, ps = before ++ p :: after ∧ (∀ q ∈ before, refusedAt doc q.1 = false) ∧
      refusedAt doc p.1 = true := by
  cases hfind : ps.find? fun p => refusedAt doc p.1 with
  | none =>
    refine absurd (fun p hp => ?_) h
    simpa using List.find?_eq_none.mp hfind p hp
  | some p =>
    obtain ⟨hp, before, after, rfl, hbefore⟩ := List.find?_eq_some_iff_append.mp hfind
    exact ⟨before, p, after, rfl, fun q hq => by simpa using hbefore q hq, hp⟩

/-- Of a write that is refused on the way: what was set before stays set. -/
theorem setEach_stopped {before after : List (String × Value)} {p : String × Value}
    (hapart : AllApart doc (before ++ p :: after))
    (hok : ∀ q ∈ before, refusedAt doc q.1 = false) (hp : refusedAt doc p.1 = true) :
    ∃ d e, setEach doc (before ++ p :: after) = (d, .error e) ∧
      ∀ q ∈ before, pointerGet d q.1 = some q.2 := by
  obtain ⟨hbefore, _, hacross⟩ := List.pairwise_append.mp hapart
  obtain ⟨d, hd, hread, hframe⟩ := setEach_accepted hbefore hok
  have hrefused : refusedAt d p.1 = true := by
    cases htokens : pointerTokens p.1 with
    | none => simp only [refusedAt, htokens, Option.all_none]
    | some us =>
      rw [(hframe p.1 ⟨us, htokens⟩ fun q hq => hacross q hq p (by simp)).2]
      exact hp
  obtain ⟨e, he⟩ := setEach_refused after hd hrefused
  exact ⟨d, e, he, hread⟩

theorem lens_of_writable {w : TokenWrite} {now : ℕ} (hobject : doc.isObject = true)
    (hblank : isBlank w.accessToken = false) (hapart : AllApart doc (written doc w now))
    (h : Writable doc w now) : Lens doc w now := by
  cases hroot : rootPointers w with
  | true =>
    have hrefused := @rootPointers_refused doc w now hroot
    refine ⟨fun hok => ?_, fun hok => ?_, fun hok => ?_, fun _ _ => by rw [hrefused]⟩ <;>
    · rw [hrefused] at hok
      cases hok
  | false =>
    obtain hbad | ⟨hclear, hstop⟩ := h
    · rw [hroot] at hbad
      cases hbad
    have happly := applyTokensInPlace_eq hobject hblank hroot hapart
    by_cases hall : ∀ p ∈ written doc w now, refusedAt doc p.1 = false
    · obtain ⟨doc', hdone, hread, _⟩ := setEach_accepted hapart hall
      rw [← happly] at hdone
      refine ⟨fun _ => ?_, fun _ us hus => ?_, fun _ p hp us t rest htokens x hx => ?_, fun e he => ?_⟩
      · rw [hdone]
        exact hread
      · rw [hdone]
        exact setEach_kept hapart hall (hclear hall) (happly ▸ hdone) hus
      · have hrefused := hall p hp
        have hreplaces := hclear hall p hp
        rw [refusedAt, htokens] at hrefused
        rw [replacesAt, htokens] at hreplaces
        exact parents_containers hrefused hreplaces hx
      · rw [hdone] at he
        cases he
    · obtain ⟨before, p, after, hsplit, hbefore, hp⟩ := exists_first_refused hall
      have hsame := hstop before p after hsplit hbefore hp
      obtain ⟨e, he⟩ := setEach_refused after (setEach_self hsame hbefore) hp
      rw [← hsplit, ← happly] at he
      refine ⟨fun hok => ?_, fun hok => ?_, fun hok => ?_, fun _ _ => by rw [he]⟩ <;>
      · rw [he] at hok
        cases hok

theorem writable_of_lens {w : TokenWrite} {now : ℕ} (hobject : doc.isObject = true)
    (hblank : isBlank w.accessToken = false) (hapart : AllApart doc (written doc w now))
    (h : Lens doc w now) : Writable doc w now := by
  cases hroot : rootPointers w with
  | true => exact .inl hroot
  | false =>
    have happly := applyTokensInPlace_eq hobject hblank hroot hapart
    refine .inr ⟨fun hall p hp => ?_, fun before p after hsplit hbefore hp => ?_⟩
    · obtain ⟨doc', hdone, _⟩ := setEach_accepted hapart hall
      have hok : (applyTokensInPlace doc w now).2 = .ok () := by rw [happly, hdone]
      by_contra hreplaces
      obtain ⟨ts, hts, hreplaces⟩ : ∃ ts, pointerTokens p.1 = some ts ∧ replaces doc ts = true := by
        cases htokens : pointerTokens p.1 with
        | none => simp [replacesAt, htokens] at hreplaces
        | some ts => exact ⟨ts, rfl, by simpa [replacesAt, htokens] using hreplaces⟩
      obtain ⟨us, t, rest, x, rfl, hx, hscalar⟩ := replaces_parent hreplaces
      have hcontainer := h.parents hok p hp us t rest hts x hx
      rw [hscalar] at hcontainer
      cases hcontainer
    · obtain ⟨d, e, hd, hread⟩ := setEach_stopped (hsplit ▸ hapart) hbefore hp
      rw [← hsplit, ← happly] at hd
      have hunchanged := h.unchanged e (by rw [hd])
      rw [hd] at hunchanged
      obtain rfl : d = doc := hunchanged
      exact hread

theorem replacePair_cons_of_ne {x y z a : Char} (h : a ≠ x) (rest : List Char) :
    replacePair x y z (a :: rest) = a :: replacePair x y z rest := by
  rcases rest with _ | ⟨b, rest⟩
  · rfl
  · simp only [replacePair, h, false_and, if_false]

def escapeTildes (key : List Char) : List Char :=
  key.flatMap fun c => if c = '~' then ['~', '0'] else [c]

def escapeChars (key : List Char) : List Char :=
  key.flatMap fun c => if c = '~' then ['~', '0'] else if c = '/' then ['~', '1'] else [c]

theorem replace_slashes (key : List Char) :
    replacePair '~' '1' '/' (escapeChars key) = escapeTildes key := by
  induction key with
  | nil => rfl
  | cons c key ih =>
    have hcons : escapeChars (c :: key) = (if c = '~' then ['~', '0'] else if c = '/' then
        ['~', '1'] else [c]) ++ escapeChars key := rfl
    have hcons' : escapeTildes (c :: key) = (if c = '~' then ['~', '0'] else [c]) ++
        escapeTildes key := rfl
    rw [hcons, hcons']
    by_cases htilde : c = '~'
    · have hzero : replacePair '~' '1' '/' ('0' :: escapeChars key) = '0' :: escapeTildes key := by
        rw [replacePair_cons_of_ne (by decide), ih]
      simp only [htilde, if_true, List.cons_append, List.nil_append, replacePair]
      exact congrArg (List.cons '~') hzero
    · by_cases hslash : c = '/'
      · subst hslash
        exact congrArg (List.cons '/') ih
      · simp only [if_neg htilde, if_neg hslash, List.cons_append, List.nil_append]
        rw [replacePair_cons_of_ne htilde, ih]

theorem replace_tildes (key : List Char) :
    replacePair '~' '0' '~' (escapeTildes key) = key := by
  induction key with
  | nil => rfl
  | cons c key ih =>
    have hcons : escapeTildes (c :: key) = (if c = '~' then ['~', '0'] else [c]) ++
        escapeTildes key := rfl
    rw [hcons]
    by_cases htilde : c = '~'
    · subst htilde
      exact congrArg (List.cons '~') ih
    · simp only [if_neg htilde, List.cons_append, List.nil_append]
      rw [replacePair_cons_of_ne htilde, ih]

theorem escapeChars_no_slash (key : List Char) : '/' ∉ escapeChars key := by
  intro h
  obtain ⟨c, _, hc⟩ := List.mem_flatMap.mp h
  split at hc
  · revert hc
    decide
  · split at hc
    · revert hc
      decide
    · rename_i hslash
      exact hslash (List.mem_singleton.mp hc).symm

theorem pointerTokens_escape (key : String) :
    pointerTokens ("/" ++ escapePointerToken key) = some [key] := by
  have hlist : ("/" ++ escapePointerToken key).toList = '/' :: escapeChars key.toList := by
    simp only [String.toList_append, escapePointerToken, String.toList_ofList]
    rfl
  unfold pointerTokens
  rw [hlist]
  have hsplit : (escapeChars key.toList).splitOn '/' = [escapeChars key.toList] := by
    refine List.splitOnP_eq_singleton fun c hc => ?_
    simpa using fun heq : c = '/' => escapeChars_no_slash _ (heq ▸ hc)
  simp only [hsplit, List.map_cons, List.map_nil, unescapePointerToken, String.toList_ofList,
    replace_slashes, replace_tildes, String.ofList_toList]

/-- Write-back is a lens exactly where a write replaces no scalar and is refused,
if at all, before it changed anything. An escaped key addresses that key. -/
theorem write_back_lens (doc : Value) (w : TokenWrite) (now : ℕ) (hobject : doc.isObject = true)
    (hblank : isBlank w.accessToken = false) (hapart : AllApart doc (written doc w now)) :
    (Lens doc w now ↔ Writable doc w now) ∧
      ∀ key, pointerTokens ("/" ++ escapePointerToken key) = some [key] :=
  ⟨⟨writable_of_lens hobject hblank hapart, lens_of_writable hobject hblank hapart⟩,
    pointerTokens_escape⟩

/-- A rotated token and its expiry in the entry of another tool's file. -/
theorem write_back_lens_entry :
    let doc : Value := .object [("a/b", .object [("key", "old"), ("n", "kept")])]
    let w : TokenWrite :=
      { accessPtr := "/a~1b/key", expiresPtr := some "/a~1b/expires_at", accessToken := "new" }
    (Lens doc w 0 ↔ Writable doc w 0) ∧
      ∀ key, pointerTokens ("/" ++ escapePointerToken key) = some [key] :=
  write_back_lens _ _ _ rfl (by decide) (by decide)

/-- A text beside the path is replaced by an object. -/
theorem write_back_replaces_text :
    let doc : Value := .object [("auth", "kept")]
    let w : TokenWrite := { accessPtr := "/auth/token", accessToken := "new" }
    doc.isObject = true ∧ isBlank w.accessToken = false ∧ AllApart doc (written doc w 0) ∧
      ¬ Lens doc w 0 := by
  refine ⟨rfl, by decide, by decide, fun h => ?_⟩
  have hcontainer := h.parents rfl ("/auth/token", "new") (by simp [written, tokenWrites])
    ["auth"] "token" [] (by decide) "kept" rfl
  cases hcontainer

end Wiremux.CredentialLens
