import Mathlib.Data.List.Infix
import Wiremux.CredentialPointers

set_option autoImplicit false

/-!
# Positions in a document

A list of tokens leads to a position: a key in an object, an index in an array.
Two spellings of one index lead to one position. The laws of get and set are
stated by position.
-/
namespace Wiremux.DocumentPositions
open JsonValue CredentialPointers

/-- A key of an object or an index of an array. -/
inductive Slot where
  | key (k : String)
  | index (i : ℕ)
deriving DecidableEq

def slot (cur : Value) (token : String) : Slot :=
  match cur with
  | .array _ =>
    match parseUsize token with
    | some i => .index i
    | none => .key token
  | _ => .key token

/-- What a token leads to, and an empty object where there is nothing yet. -/
def child (cur : Value) (token : String) : Value :=
  match cur with
  | .object fields => descend ((Value.object fields).get? token)
  | .array items => ((parseUsize token).bind fun i => items[i]?).getD (.object [])
  | _ => .object []

def position : Value → List String → List Slot
  | _, [] => []
  | cur, token :: rest => slot cur token :: position (child cur token) rest

/-- The second tokens lead to the position of the first or below it. -/
def Covers (cur : Value) (ts us : List String) : Prop := position cur ts <+: position cur us

instance (cur : Value) (ts us : List String) : Decidable (Covers cur ts us) :=
  inferInstanceAs (Decidable (position cur ts <+: position cur us))

def Apart (cur : Value) (ts us : List String) : Prop := ¬ Covers cur ts us ∧ ¬ Covers cur us ts

instance (cur : Value) (ts us : List String) : Decidable (Apart cur ts us) :=
  inferInstanceAs (Decidable (¬ _ ∧ ¬ _))

theorem Apart.symm {cur : Value} {ts us : List String} (h : Apart cur ts us) : Apart cur us ts :=
  ⟨h.2, h.1⟩

theorem covers_nil (cur : Value) (us : List String) : Covers cur [] us := List.nil_prefix

theorem covers_cons {cur : Value} {t u : String} {ts us : List String} :
    Covers cur (t :: ts) (u :: us) ↔ slot cur t = slot cur u ∧
      position (child cur t) ts <+: position (child cur u) us :=
  List.cons_prefix_cons

theorem child_of_slot {cur : Value} {t u : String} (h : slot cur t = slot cur u) :
    child cur t = child cur u := by
  cases cur with
  | array items =>
    simp only [slot] at h
    cases ht : parseUsize t <;> cases hu : parseUsize u <;> simp_all [child]
  | _ =>
    obtain rfl := Slot.key.inj h
    rfl

theorem covers_cons_self {cur : Value} {t u : String} {ts us : List String}
    (h : slot cur t = slot cur u) :
    Covers cur (t :: ts) (u :: us) ↔ Covers (child cur t) ts us := by
  rw [covers_cons, ← child_of_slot h]
  exact and_iff_right h

/-- A set through these tokens fails: an array without that index, or an array
element that is no container, is on the way. -/
def refused : Value → List String → Bool
  | _, [] => true
  | cur, token :: rest =>
    match cur with
    | .object fields =>
      if rest.isEmpty then false else refused (descend ((Value.object fields).get? token)) rest
    | .array items =>
      match (parseUsize token).bind fun i => items[i]? with
      | none => true
      | some item => if rest.isEmpty then false else refused item rest
    | _ => true

def isContainer : Value → Bool
  | .object _ => true
  | .array _ => true
  | _ => false

/-- A set through these tokens puts an object in the place of a member that is
no container. -/
def replaces : Value → List String → Bool
  | _, [] => false
  | cur, token :: rest =>
    if rest.isEmpty then false
    else
      match cur with
      | .object fields =>
        match (Value.object fields).get? token with
        | none => false
        | some member => if isContainer member then replaces member rest else true
      | .array items =>
        match (parseUsize token).bind fun i => items[i]? with
        | none => false
        | some item => replaces item rest
      | _ => false

theorem arrayIndex_eq (token : String) (items : List Value) :
    (∃ i item, parseUsize token = some i ∧ items[i]? = some item ∧
      arrayIndex token items = .ok (i, item)) ∨
    ((parseUsize token).bind (fun i => items[i]?) = none ∧
      ∃ e, arrayIndex token items = .error e) := by
  unfold arrayIndex
  cases hparse : parseUsize token with
  | none => exact .inr ⟨rfl, _, rfl⟩
  | some i =>
    cases hitem : items[i]? with
    | none =>
      simp only [hitem]
      exact .inr ⟨hitem, _, rfl⟩
    | some item => exact .inl ⟨i, item, rfl, hitem, by simp only [hitem]⟩

/-- How a set that succeeds changes one node. -/
inductive SetCase (cur cur' value : Value) : List String → Prop
  | member {fields : List (String × Value)} {last : String} :
      cur = .object fields → cur' = (Value.object fields).insert last value →
      SetCase cur cur' value [last]
  | element {items : List Value} {last : String} {i : ℕ} {item : Value} :
      cur = .array items → parseUsize last = some i → items[i]? = some item →
      cur' = .array (items.set i value) → SetCase cur cur' value [last]
  | below {fields : List (String × Value)} {token next : String} {rest : List String}
      {inner : Value} :
      cur = .object fields →
      setTokens (descend ((Value.object fields).get? token)) (next :: rest) value = .ok inner →
      cur' = (Value.object fields).insert token inner → SetCase cur cur' value (token :: next :: rest)
  | within {items : List Value} {token next : String} {rest : List String} {i : ℕ}
      {item inner : Value} :
      cur = .array items → parseUsize token = some i → items[i]? = some item →
      setTokens item (next :: rest) value = .ok inner → cur' = .array (items.set i inner) →
      SetCase cur cur' value (token :: next :: rest)

theorem setTokens_cases {cur cur' value : Value} {tokens : List String}
    (h : setTokens cur tokens value = .ok cur') : SetCase cur cur' value tokens := by
  rcases tokens with _ | ⟨token, _ | ⟨next, rest⟩⟩
  · cases h
  · cases cur with
    | object fields => exact .member rfl (Except.ok.inj h).symm
    | array items =>
      simp only [setTokens] at h
      rcases arrayIndex_eq token items with ⟨i, item, hi, hitem, hok⟩ | ⟨_, e, herror⟩
      · rw [hok] at h
        exact .element rfl hi hitem (Except.ok.inj h).symm
      · rw [herror] at h
        cases h
    | _ => cases h
  · cases cur with
    | object fields =>
      simp only [setTokens] at h
      cases hinner : setTokens (descend ((Value.object fields).get? token)) (next :: rest) value with
      | error e =>
        rw [hinner] at h
        cases h
      | ok inner =>
        rw [hinner] at h
        exact .below rfl hinner (Except.ok.inj h).symm
    | array items =>
      simp only [setTokens] at h
      rcases arrayIndex_eq token items with ⟨i, item, hi, hitem, hok⟩ | ⟨_, e, herror⟩
      · rw [hok] at h
        cases hinner : setTokens item (next :: rest) value with
        | error e =>
          simp only [hinner] at h
          cases h
        | ok inner =>
          simp only [hinner] at h
          exact .within rfl hi hitem hinner (Except.ok.inj h).symm
      · rw [herror] at h
        cases h
    | _ => cases h

theorem getTokens_cons_object (fields : List (String × Value)) (token : String)
    (rest : List String) : getTokens (.object fields) (token :: rest) =
      ((Value.object fields).get? token).bind fun next => getTokens next rest := rfl

theorem getTokens_cons_array (items : List Value) (token : String) (rest : List String) :
    getTokens (.array items) (token :: rest) =
      (parseUsize token).bind fun i => items[i]?.bind fun next => getTokens next rest := rfl

theorem getTokens_descend (member : Option Value) (token : String) (rest : List String) :
    getTokens (descend member) (token :: rest) =
      member.bind fun next => getTokens next (token :: rest) := by
  cases member with
  | none => rfl
  | some v => cases v <;> rfl

theorem getTokens_insert (fields : List (String × Value)) (key token : String) (x : Value)
    (rest : List String) : getTokens ((Value.object fields).insert key x) (token :: rest) =
      if token = key then getTokens x rest else getTokens (.object fields) (token :: rest) := by
  change (((Value.object fields).insert key x).get? token).bind _ = _
  by_cases h : token = key
  · subst h
    rw [if_pos rfl, Value.get?_insert_self _ _ rfl]
    rfl
  · rw [if_neg h, Value.get?_insert_of_ne _ _ h]
    rfl

theorem setTokens_below (fields : List (String × Value)) (token next : String)
    (rest : List String) (value : Value) :
    setTokens (.object fields) (token :: next :: rest) value =
      (setTokens (descend ((Value.object fields).get? token)) (next :: rest) value).map fun inner =>
        (Value.object fields).insert token inner := rfl

theorem refused_object (fields : List (String × Value)) (token next : String)
    (rest : List String) : refused (.object fields) (token :: next :: rest) =
      refused (descend ((Value.object fields).get? token)) (next :: rest) := rfl

theorem refused_array (items : List Value) (token next : String) (rest : List String) :
    refused (.array items) (token :: next :: rest) =
      match (parseUsize token).bind fun i => items[i]? with
      | none => true
      | some item => refused item (next :: rest) := rfl

theorem getElem?_set_at {items : List Value} {i : ℕ} {item : Value} (v : Value)
    (h : items[i]? = some item) : (items.set i v)[i]? = some v := by
  obtain ⟨hlt, _⟩ := List.getElem?_eq_some_iff.mp h
  exact List.getElem?_set_self hlt

theorem getTokens_set_of_ne {items : List Value} {i : ℕ} {token : String} (x : Value)
    (h : ¬ parseUsize token = some i) (rest : List String) :
    getTokens (.array (items.set i x)) (token :: rest) = getTokens (.array items) (token :: rest) := by
  rw [getTokens_cons_array, getTokens_cons_array]
  cases hj : parseUsize token with
  | none => rfl
  | some j =>
    have hne : i ≠ j := fun heq => h (by rw [hj, heq])
    simp only [Option.bind_some, List.getElem?_set_ne hne]

theorem getTokens_setTokens {cur cur' value : Value} {tokens : List String}
    (h : setTokens cur tokens value = .ok cur') : getTokens cur' tokens = some value := by
  induction tokens generalizing cur cur' with
  | nil => cases h
  | cons token rest ih =>
    cases setTokens_cases h with
    | member hcur hcur' =>
      subst hcur'
      rw [getTokens_insert, if_pos rfl]
      rfl
    | element hcur hi hitem hcur' =>
      subst hcur'
      rw [getTokens_cons_array, hi]
      simp only [Option.bind_some, getElem?_set_at value hitem]
      rfl
    | @below fields token next rest inner hcur hinner hcur' =>
      subst hcur'
      rw [getTokens_insert, if_pos rfl]
      exact ih hinner
    | @within items token next rest i item inner hcur hi hitem hinner hcur' =>
      subst hcur'
      rw [getTokens_cons_array, hi]
      simp only [Option.bind_some, getElem?_set_at inner hitem]
      exact ih hinner

theorem set_self {items : List Value} {i : ℕ} {item : Value} (h : items[i]? = some item) :
    items.set i item = items := by
  obtain ⟨hlt, hitem⟩ := List.getElem?_eq_some_iff.mp h
  subst hitem
  exact List.set_getElem_self hlt

theorem setTokens_getTokens {cur value : Value} {tokens : List String} (hne : tokens ≠ [])
    (h : getTokens cur tokens = some value) : setTokens cur tokens value = .ok cur := by
  induction tokens generalizing cur with
  | nil => exact absurd rfl hne
  | cons token rest ih =>
    cases cur with
    | object fields =>
      rw [getTokens_cons_object] at h
      obtain ⟨member, hmember, hrest⟩ := Option.bind_eq_some_iff.mp h
      rcases rest with _ | ⟨next, rest⟩
      · obtain rfl := Option.some.inj hrest
        exact congrArg Except.ok (Value.insert_of_get? hmember)
      · have hdescend : getTokens (descend (some member)) (next :: rest) = some value := by
          rw [getTokens_descend]
          exact hrest
        have hkept : descend (some member) = member := by
          cases member <;> first | rfl | cases hrest
        rw [setTokens_below, hmember, ih (by simp) hdescend, hkept]
        exact congrArg Except.ok (Value.insert_of_get? hmember)
    | array items =>
      rw [getTokens_cons_array] at h
      obtain ⟨i, hi, h⟩ := Option.bind_eq_some_iff.mp h
      obtain ⟨item, hitem, hrest⟩ := Option.bind_eq_some_iff.mp h
      have hslot : arrayIndex token items = .ok (i, item) := by
        simp only [arrayIndex, hi, hitem]
      rcases rest with _ | ⟨next, rest⟩
      · obtain rfl := Option.some.inj hrest
        simp only [setTokens, hslot, Except.map, set_self hitem]
      · simp only [setTokens, hslot, ih (by simp) hrest, Except.map, set_self hitem]
    | _ => cases h

theorem setTokens_error_iff (cur value : Value) (tokens : List String) :
    (∃ e, setTokens cur tokens value = .error e) ↔ refused cur tokens = true := by
  induction tokens generalizing cur with
  | nil => simp [setTokens, refused]
  | cons token rest ih =>
    cases cur with
    | object fields =>
      rcases rest with _ | ⟨next, rest⟩
      · simp [setTokens, refused]
      · have hrest := ih (descend ((Value.object fields).get? token))
        rw [setTokens_below, refused_object, ← hrest]
        cases setTokens (descend ((Value.object fields).get? token)) (next :: rest) value <;>
          simp [Except.map]
    | array items =>
      rcases arrayIndex_eq token items with ⟨i, item, hi, hitem, hok⟩ | ⟨hnone, e, herror⟩
      · have hfound : ((parseUsize token).bind fun i => items[i]?) = some item := by
          rw [hi]
          exact hitem
        rcases rest with _ | ⟨next, rest⟩
        · simp [setTokens, refused, hok, hfound, Except.map]
        · have hrest := ih item
          rw [refused_array, hfound]
          simp only [setTokens, hok]
          rw [← hrest]
          cases setTokens item (next :: rest) value <;> simp [Except.map]
      · rcases rest with _ | ⟨next, rest⟩
        · simp [setTokens, refused, herror, hnone, Except.map]
        · simp [setTokens, refused, herror, hnone]
    | _ => rcases rest with _ | ⟨next, rest⟩ <;> simp [setTokens, refused]

theorem child_insert (fields : List (String × Value)) (key token : String) (x : Value) :
    child ((Value.object fields).insert key x) token =
      if token = key then descend (some x) else child (.object fields) token := by
  change descend (((Value.object fields).insert key x).get? token) = _
  by_cases h : token = key
  · subst h
    rw [if_pos rfl, Value.get?_insert_self _ _ rfl]
  · rw [if_neg h, Value.get?_insert_of_ne _ _ h]
    rfl

theorem child_set {items : List Value} {i : ℕ} {item : Value} (x : Value) (token : String)
    (h : items[i]? = some item) : child (.array (items.set i x)) token =
      if parseUsize token = some i then x else child (.array items) token := by
  by_cases hparse : parseUsize token = some i
  · rw [if_pos hparse]
    simp only [child, hparse, Option.bind_some, getElem?_set_at x h, Option.getD_some]
  · rw [if_neg hparse]
    cases hj : parseUsize token with
    | none => simp only [child, hj, Option.bind_none]
    | some j =>
      have hne : i ≠ j := fun heq => hparse (by rw [hj, heq])
      simp only [child, hj, Option.bind_some, List.getElem?_set_ne hne]

theorem child_at {items : List Value} {token : String} {i : ℕ} {item : Value}
    (hi : parseUsize token = some i) (hitem : items[i]? = some item) :
    child (.array items) token = item := by
  simp only [child, hi, Option.bind_some, hitem, Option.getD_some]

theorem slot_eq_index {items : List Value} {token : String} {i : ℕ}
    (h : parseUsize token = some i) : slot (.array items) token = .index i := by
  simp only [slot, h]

theorem slot_of_index {items : List Value} {t u : String} {i : ℕ} (ht : parseUsize t = some i)
    (hu : parseUsize u = some i) : slot (.array items) t = slot (.array items) u := by
  rw [slot_eq_index ht, slot_eq_index hu]

theorem descend_of_container {v : Value} (h : isContainer v = true) : descend (some v) = v := by
  cases v <;> first | rfl | cases h

theorem setTokens_container {cur cur' value : Value} {tokens : List String}
    (h : setTokens cur tokens value = .ok cur') : isContainer cur' = true := by
  cases setTokens_cases h with
  | member _ hcur' => rw [hcur']; rfl
  | element _ _ _ hcur' => rw [hcur']; rfl
  | below _ _ hcur' => rw [hcur']; rfl
  | within _ _ _ _ hcur' => rw [hcur']; rfl

theorem refused_insert (fields : List (String × Value)) (key u w : String) (x : Value)
    (us : List String) : refused ((Value.object fields).insert key x) (u :: w :: us) =
      if u = key then refused (descend (some x)) (w :: us)
      else refused (.object fields) (u :: w :: us) := by
  change refused (descend (((Value.object fields).insert key x).get? u)) (w :: us) = _
  by_cases h : u = key
  · subst h
    rw [if_pos rfl, Value.get?_insert_self _ _ rfl]
  · rw [if_neg h, Value.get?_insert_of_ne _ _ h]
    rfl

theorem replaces_object (fields : List (String × Value)) (u w : String) (us : List String) :
    replaces (.object fields) (u :: w :: us) =
      match (Value.object fields).get? u with
      | none => false
      | some member => if isContainer member then replaces member (w :: us) else true := rfl

theorem replaces_empty (ts : List String) : replaces (.object []) ts = false := by
  rcases ts with _ | ⟨t, _ | ⟨w, ts⟩⟩ <;> rfl

theorem replaces_array (items : List Value) (u w : String) (us : List String) :
    replaces (.array items) (u :: w :: us) =
      match (parseUsize u).bind fun i => items[i]? with
      | none => false
      | some item => replaces item (w :: us) := rfl

theorem replaces_insert (fields : List (String × Value)) (key u w : String) (x : Value)
    (us : List String) : replaces ((Value.object fields).insert key x) (u :: w :: us) =
      if u = key then (if isContainer x then replaces x (w :: us) else true)
      else replaces (.object fields) (u :: w :: us) := by
  obtain ⟨fields', hfields⟩ : ∃ fields', (Value.object fields).insert key x = .object fields' :=
    ⟨_, rfl⟩
  rw [hfields, replaces_object, ← hfields]
  by_cases h : u = key
  · subst h
    rw [if_pos rfl, Value.get?_insert_self _ _ rfl]
  · rw [if_neg h, Value.get?_insert_of_ne _ _ h, replaces_object]

theorem lookup_set_of_ne {items : List Value} {i : ℕ} {token : String} (x : Value)
    (h : ¬ parseUsize token = some i) :
    ((parseUsize token).bind fun j => (items.set i x)[j]?) =
      (parseUsize token).bind fun j => items[j]? := by
  cases hj : parseUsize token with
  | none => rfl
  | some j =>
    have hne : i ≠ j := fun heq => h (by rw [hj, heq])
    simp only [Option.bind_some, List.getElem?_set_ne hne]

theorem refused_set_of_ne {items : List Value} {i : ℕ} {u : String} (x : Value)
    (h : ¬ parseUsize u = some i) (w : String) (us : List String) :
    refused (.array (items.set i x)) (u :: w :: us) = refused (.array items) (u :: w :: us) := by
  rw [refused_array, refused_array, lookup_set_of_ne x h]

theorem replaces_set_of_ne {items : List Value} {i : ℕ} {u : String} (x : Value)
    (h : ¬ parseUsize u = some i) (w : String) (us : List String) :
    replaces (.array (items.set i x)) (u :: w :: us) = replaces (.array items) (u :: w :: us) := by
  rw [replaces_array, replaces_array, lookup_set_of_ne x h]

theorem position_setTokens {cur cur' value : Value} {ts us : List String}
    (h : setTokens cur ts value = .ok cur') (hus : ¬ Covers cur ts us) :
    position cur' us = position cur us := by
  induction ts generalizing cur cur' us with
  | nil => cases h
  | cons t rest ih =>
    rcases us with _ | ⟨u, us⟩
    · rfl
    · cases setTokens_cases h with
      | @member fields last hcur hcur' =>
        subst hcur hcur'
        have hne : u ≠ t := by
          rintro rfl
          exact hus (covers_cons.mpr ⟨rfl, List.nil_prefix⟩)
        simp only [position, child_insert, if_neg hne]
        rfl
      | @element items last i item hcur hi hitem hcur' =>
        subst hcur hcur'
        have hne : ¬ parseUsize u = some i := by
          intro hu
          exact hus (covers_cons.mpr ⟨slot_of_index hi hu, List.nil_prefix⟩)
        simp only [position, child_set value u hitem, if_neg hne]
        rfl
      | @below fields token next rest inner hcur hinner hcur' =>
        subst hcur hcur'
        by_cases hu : u = t
        · subst hu
          have hbelow : ¬ Covers (descend ((Value.object fields).get? u)) (next :: rest) us :=
            fun hcovers => hus ((covers_cons_self rfl).mpr hcovers)
          simp only [position, child_insert, if_true, descend_of_container (setTokens_container hinner),
            ih hinner hbelow]
          rfl
        · simp only [position, child_insert, if_neg hu]
          rfl
      | @within items token next rest i item inner hcur hi hitem hinner hcur' =>
        subst hcur hcur'
        by_cases hu : parseUsize u = some i
        · have hbelow : ¬ Covers item (next :: rest) us := by
            intro hcovers
            refine hus ((covers_cons_self (slot_of_index hi hu)).mpr ?_)
            rw [child_at hi hitem]
            exact hcovers
          simp only [position, child_set inner u hitem, if_pos hu, ih hinner hbelow,
            child_at hu hitem]
          rfl
        · simp only [position, child_set inner u hitem, if_neg hu]
          rfl

theorem position_self {cur cur' value : Value} {ts : List String}
    (h : setTokens cur ts value = .ok cur') : position cur' ts = position cur ts := by
  induction ts generalizing cur cur' with
  | nil => cases h
  | cons t rest ih =>
    cases setTokens_cases h with
    | member hcur hcur' => subst hcur hcur'; rfl
    | element hcur _ _ hcur' => subst hcur hcur'; rfl
    | @below fields token next rest inner hcur hinner hcur' =>
      subst hcur hcur'
      unfold position
      rw [child_insert, if_pos rfl, descend_of_container (setTokens_container hinner), ih hinner]
      rfl
    | @within items token next rest i item inner hcur hi hitem hinner hcur' =>
      subst hcur hcur'
      unfold position
      rw [child_set inner t hitem, if_pos hi, ih hinner, child_at hi hitem]
      rfl

theorem getTokens_of_apart {cur cur' value : Value} {ts us : List String}
    (h : setTokens cur ts value = .ok cur') (hus : Apart cur ts us) :
    getTokens cur' us = getTokens cur us := by
  induction ts generalizing cur cur' us with
  | nil => cases h
  | cons t rest ih =>
    rcases us with _ | ⟨u, us⟩
    · exact absurd (covers_nil _ _) hus.2
    · cases setTokens_cases h with
      | @member fields last hcur hcur' =>
        subst hcur hcur'
        have hne : u ≠ t := by
          rintro rfl
          exact hus.1 (covers_cons.mpr ⟨rfl, List.nil_prefix⟩)
        rw [getTokens_insert, if_neg hne]
      | @element items last i item hcur hi hitem hcur' =>
        subst hcur hcur'
        have hne : ¬ parseUsize u = some i := by
          intro hu
          exact hus.1 (covers_cons.mpr ⟨slot_of_index hi hu, List.nil_prefix⟩)
        exact getTokens_set_of_ne value hne us
      | @below fields token next rest inner hcur hinner hcur' =>
        subst hcur hcur'
        rw [getTokens_insert]
        by_cases hu : u = t
        · subst hu
          have hbelow : Apart (descend ((Value.object fields).get? u)) (next :: rest) us :=
            ⟨fun hcovers => hus.1 ((covers_cons_self rfl).mpr hcovers),
              fun hcovers => hus.2 ((covers_cons_self rfl).mpr hcovers)⟩
          rw [if_pos rfl, ih hinner hbelow]
          rcases us with _ | ⟨v, us⟩
          · exact absurd (covers_nil _ _) hbelow.2
          · rw [getTokens_descend]
            rfl
        · rw [if_neg hu]
      | @within items token next rest i item inner hcur hi hitem hinner hcur' =>
        subst hcur hcur'
        by_cases hu : parseUsize u = some i
        · have hbelow : Apart item (next :: rest) us := by
            refine ⟨fun hcovers => hus.1 ?_, fun hcovers => hus.2 ?_⟩
            · refine (covers_cons_self (slot_of_index hi hu)).mpr ?_
              rw [child_at hi hitem]
              exact hcovers
            · refine (covers_cons_self (slot_of_index hu hi)).mpr ?_
              rw [child_at hu hitem]
              exact hcovers
          rw [getTokens_cons_array, getTokens_cons_array, hu]
          simp only [Option.bind_some, getElem?_set_at inner hitem, hitem, ih hinner hbelow]
        · exact getTokens_set_of_ne inner hu us

theorem refused_setTokens {cur cur' value : Value} {ts us : List String}
    (h : setTokens cur ts value = .ok cur') (hus : ¬ Covers cur ts us) :
    refused cur' us = refused cur us := by
  induction ts generalizing cur cur' us with
  | nil => cases h
  | cons t rest ih =>
    rcases us with _ | ⟨u, _ | ⟨w, us⟩⟩
    · cases cur <;> cases cur' <;> rfl
    · -- the last token of the other pointer: only the kind of the node counts
      cases setTokens_cases h with
      | member hcur hcur' => subst hcur hcur'; rfl
      | @element items last i item hcur hi hitem hcur' =>
        subst hcur hcur'
        simp only [refused]
        cases hu : parseUsize u with
        | none => rfl
        | some j =>
          simp only [Option.bind_some]
          by_cases hj : i = j
          · subst hj
            simp only [getElem?_set_at value hitem, hitem, List.isEmpty_nil, if_true]
          · rw [List.getElem?_set_ne hj]
      | below hcur hinner hcur' => subst hcur hcur'; rfl
      | @within items token next rest i item inner hcur hi hitem hinner hcur' =>
        subst hcur hcur'
        simp only [refused]
        cases hu : parseUsize u with
        | none => rfl
        | some j =>
          simp only [Option.bind_some]
          by_cases hj : i = j
          · subst hj
            simp only [getElem?_set_at inner hitem, hitem, List.isEmpty_nil, if_true]
          · rw [List.getElem?_set_ne hj]
    · cases setTokens_cases h with
      | @member fields last hcur hcur' =>
        subst hcur hcur'
        have hne : u ≠ t := by
          rintro rfl
          exact hus (covers_cons.mpr ⟨rfl, List.nil_prefix⟩)
        rw [refused_insert, if_neg hne]
      | @element items last i item hcur hi hitem hcur' =>
        subst hcur hcur'
        have hne : ¬ parseUsize u = some i := by
          intro hu
          exact hus (covers_cons.mpr ⟨slot_of_index hi hu, List.nil_prefix⟩)
        exact refused_set_of_ne value hne w us
      | @below fields token next rest inner hcur hinner hcur' =>
        subst hcur hcur'
        rw [refused_insert]
        by_cases hu : u = t
        · subst hu
          rw [if_pos rfl, descend_of_container (setTokens_container hinner), refused_object]
          exact ih hinner fun hcovers => hus ((covers_cons_self rfl).mpr hcovers)
        · rw [if_neg hu]
      | @within items token next rest i item inner hcur hi hitem hinner hcur' =>
        subst hcur hcur'
        by_cases hu : parseUsize u = some i
        · rw [refused_array, refused_array, hu]
          simp only [Option.bind_some, getElem?_set_at inner hitem, hitem]
          refine ih hinner fun hcovers => hus ?_
          refine (covers_cons_self (slot_of_index hi hu)).mpr ?_
          rw [child_at hi hitem]
          exact hcovers
        · exact refused_set_of_ne inner hu w us

theorem replaces_setTokens {cur cur' value : Value} {ts us : List String}
    (h : setTokens cur ts value = .ok cur') (hclear : replaces cur ts = false)
    (hus : ¬ Covers cur ts us) : replaces cur' us = replaces cur us := by
  induction ts generalizing cur cur' us with
  | nil => cases h
  | cons t rest ih =>
    rcases us with _ | ⟨u, _ | ⟨w, us⟩⟩
    · rfl
    · rfl
    · cases setTokens_cases h with
      | @member fields last hcur hcur' =>
        subst hcur hcur'
        have hne : u ≠ t := by
          rintro rfl
          exact hus (covers_cons.mpr ⟨rfl, List.nil_prefix⟩)
        rw [replaces_insert, if_neg hne]
      | @element items last i item hcur hi hitem hcur' =>
        subst hcur hcur'
        have hne : ¬ parseUsize u = some i := by
          intro hu
          exact hus (covers_cons.mpr ⟨slot_of_index hi hu, List.nil_prefix⟩)
        exact replaces_set_of_ne value hne w us
      | @below fields token next rest inner hcur hinner hcur' =>
        subst hcur hcur'
        rw [replaces_insert]
        by_cases hu : u = t
        · subst hu
          have hbelow : ¬ Covers (descend ((Value.object fields).get? u)) (next :: rest) (w :: us) :=
            fun hcovers => hus ((covers_cons_self rfl).mpr hcovers)
          rw [if_pos rfl, if_pos (setTokens_container hinner)]
          cases hmember : (Value.object fields).get? u with
          | none =>
            rw [hmember] at hinner hbelow
            rw [ih hinner (replaces_empty _) hbelow, replaces_object, hmember]
            exact replaces_empty _
          | some member =>
            rw [replaces_object, hmember] at hclear
            have hcontainer : isContainer member = true := by
              by_contra hscalar
              simp only [hscalar] at hclear
              cases hclear
            rw [hmember, descend_of_container hcontainer] at hinner hbelow
            simp only [hcontainer, if_true] at hclear
            rw [ih hinner hclear hbelow, replaces_object, hmember]
            simp only [hcontainer, if_true]
        · rw [if_neg hu]
      | @within items token next rest i item inner hcur hi hitem hinner hcur' =>
        subst hcur hcur'
        by_cases hu : parseUsize u = some i
        · have hclear' : replaces item (next :: rest) = false := by
            rw [replaces_array, hi] at hclear
            simpa only [Option.bind_some, hitem] using hclear
          rw [replaces_array, replaces_array, hu]
          simp only [Option.bind_some, getElem?_set_at inner hitem, hitem]
          refine ih hinner hclear' fun hcovers => hus ?_
          refine (covers_cons_self (slot_of_index hi hu)).mpr ?_
          rw [child_at hi hitem]
          exact hcovers
        · exact replaces_set_of_ne inner hu w us

/-- A value without its children. -/
def node : Value → Value
  | .object _ => .object []
  | .array items => .array (List.replicate items.length .null)
  | scalar => scalar

/-- The node at a position is as before, or an object where a parent was missing. -/
def Kept (cur cur' : Value) (ts us : List String) : Prop :=
  (getTokens cur' us).map node = (getTokens cur us).map node ∨
    getTokens cur us = none ∧ Covers cur us ts ∧ (getTokens cur' us).map node = some (.object [])

theorem Kept.of_eq {cur cur' : Value} {ts us : List String}
    (h : getTokens cur' us = getTokens cur us) : Kept cur cur' ts us :=
  .inl (congrArg (Option.map node) h)

theorem setTokens_node {cur cur' value : Value} {ts : List String}
    (h : setTokens cur ts value = .ok cur') : node cur' = node cur := by
  cases setTokens_cases h with
  | member hcur hcur' => rw [hcur, hcur']; rfl
  | element hcur _ _ hcur' => rw [hcur, hcur']; simp only [node, List.length_set]
  | below hcur _ hcur' => rw [hcur, hcur']; rfl
  | within hcur _ _ _ hcur' => rw [hcur, hcur']; simp only [node, List.length_set]

/-- A set that replaces no scalar keeps the node at every position that is not
at or below its own. -/
theorem kept_of_set {cur cur' value : Value} {ts us : List String}
    (h : setTokens cur ts value = .ok cur') (hclear : replaces cur ts = false)
    (hus : ¬ Covers cur ts us) : Kept cur cur' ts us := by
  induction ts generalizing cur cur' us with
  | nil => cases h
  | cons t rest ih =>
    rcases us with _ | ⟨u, us⟩
    · exact .inl (congrArg some (setTokens_node h))
    · cases setTokens_cases h with
      | @member fields last hcur hcur' =>
        subst hcur hcur'
        have hne : u ≠ t := by
          rintro rfl
          exact hus (covers_cons.mpr ⟨rfl, List.nil_prefix⟩)
        exact .of_eq (by rw [getTokens_insert, if_neg hne])
      | @element items last i item hcur hi hitem hcur' =>
        subst hcur hcur'
        have hne : ¬ parseUsize u = some i := by
          intro hu
          exact hus (covers_cons.mpr ⟨slot_of_index hi hu, List.nil_prefix⟩)
        exact .of_eq (getTokens_set_of_ne value hne us)
      | @below fields token next rest inner hcur hinner hcur' =>
        subst hcur hcur'
        by_cases hu : u = t
        · subst hu
          have hbelow : ¬ Covers (descend ((Value.object fields).get? u)) (next :: rest) us :=
            fun hcovers => hus ((covers_cons_self rfl).mpr hcovers)
          unfold Kept
          rw [getTokens_insert, if_pos rfl, getTokens_cons_object]
          cases hmember : (Value.object fields).get? u with
          | none =>
            rw [hmember] at hinner hbelow
            have hslot : Covers (.object fields) (u :: us) (u :: next :: rest) ↔
                Covers (.object []) us (next :: rest) := by
              rw [covers_cons_self rfl]
              change Covers (descend ((Value.object fields).get? u)) _ _ ↔ _
              rw [hmember]
              rfl
            rcases us with _ | ⟨v, us⟩
            · exact .inr ⟨rfl, hslot.mpr (covers_nil _ _), congrArg some (setTokens_node hinner)⟩
            · rcases ih hinner (replaces_empty _) hbelow with hsame | ⟨_, hcovers, hobject⟩
              · exact .inl hsame
              · exact .inr ⟨rfl, hslot.mpr hcovers, hobject⟩
          | some member =>
            rw [replaces_object, hmember] at hclear
            have hcontainer : isContainer member = true := by
              by_contra hscalar
              simp only [hscalar] at hclear
              cases hclear
            rw [hmember, descend_of_container hcontainer] at hinner hbelow
            simp only [hcontainer, if_true] at hclear
            rcases ih hinner hclear hbelow with hsame | ⟨hnone, hcovers, hobject⟩
            · exact .inl hsame
            · refine .inr ⟨hnone, (covers_cons_self rfl).mpr ?_, hobject⟩
              change Covers (descend ((Value.object fields).get? u)) _ _
              rw [hmember, descend_of_container hcontainer]
              exact hcovers
        · exact .of_eq (by rw [getTokens_insert, if_neg hu])
      | @within items token next rest i item inner hcur hi hitem hinner hcur' =>
        subst hcur hcur'
        by_cases hu : parseUsize u = some i
        · have hclear' : replaces item (next :: rest) = false := by
            rw [replaces_array, hi] at hclear
            simpa only [Option.bind_some, hitem] using hclear
          have hslot := @slot_of_index items _ _ _ hi hu
          have hbelow : ¬ Covers item (next :: rest) us := by
            intro hcovers
            refine hus ((covers_cons_self hslot).mpr ?_)
            rw [child_at hi hitem]
            exact hcovers
          unfold Kept
          rw [getTokens_cons_array, getTokens_cons_array, hu]
          simp only [Option.bind_some, getElem?_set_at inner hitem, hitem]
          rcases ih hinner hclear' hbelow with hsame | ⟨hnone, hcovers, hobject⟩
          · exact .inl hsame
          · refine .inr ⟨hnone, (covers_cons_self hslot.symm).mpr ?_, hobject⟩
            rw [child_at hu hitem]
            exact hcovers
        · exact .of_eq (getTokens_set_of_ne inner hu us)

theorem replaces_parent {cur : Value} {ts : List String} (h : replaces cur ts = true) :
    ∃ us t rest x, ts = us ++ t :: rest ∧ getTokens cur us = some x ∧ isContainer x = false := by
  induction ts generalizing cur with
  | nil => cases h
  | cons t rest ih =>
    rcases rest with _ | ⟨w, rest⟩
    · cases h
    · cases cur with
      | object fields =>
        rw [replaces_object] at h
        cases hmember : (Value.object fields).get? t with
        | none =>
          rw [hmember] at h
          cases h
        | some member =>
          simp only [hmember] at h
          by_cases hcontainer : isContainer member = true
          · rw [if_pos hcontainer] at h
            obtain ⟨us, t', rest', x, hts, hget, hx⟩ := ih h
            refine ⟨t :: us, t', rest', x, by rw [hts]; rfl, ?_, hx⟩
            rw [getTokens_cons_object, hmember]
            exact hget
          · refine ⟨[t], w, rest, member, rfl, ?_, by simpa using hcontainer⟩
            rw [getTokens_cons_object, hmember]
            rfl
      | array items =>
        rw [replaces_array] at h
        cases hitem : (parseUsize t).bind fun i => items[i]? with
        | none =>
          rw [hitem] at h
          cases h
        | some item =>
          simp only [hitem] at h
          obtain ⟨us, t', rest', x, hts, hget, hx⟩ := ih h
          refine ⟨t :: us, t', rest', x, by rw [hts]; rfl, ?_, hx⟩
          obtain ⟨i, hi, hitem⟩ := Option.bind_eq_some_iff.mp hitem
          rw [getTokens_cons_array, hi]
          simp only [Option.bind_some, hitem, hget]
      | _ => cases h

theorem parents_containers {cur : Value} {us rest : List String} {t : String}
    (hrefused : refused cur (us ++ t :: rest) = false)
    (hclear : replaces cur (us ++ t :: rest) = false) {x : Value}
    (hx : getTokens cur us = some x) : isContainer x = true := by
  induction us generalizing cur with
  | nil =>
    obtain rfl := Option.some.inj hx
    cases cur <;> first | rfl | cases hrefused
  | cons u us ih =>
    obtain ⟨w, tail, htail⟩ : ∃ w tail, us ++ t :: rest = w :: tail := by
      cases us <;> exact ⟨_, _, rfl⟩
    rw [List.cons_append, htail] at hrefused hclear
    cases cur with
    | object fields =>
      rw [getTokens_cons_object] at hx
      obtain ⟨member, hmember, hx⟩ := Option.bind_eq_some_iff.mp hx
      rw [replaces_object, hmember] at hclear
      rw [refused_object, hmember] at hrefused
      by_cases hcontainer : isContainer member = true
      · simp only [hcontainer, if_true] at hclear
        rw [descend_of_container hcontainer] at hrefused
        rw [← htail] at hrefused hclear
        exact ih hrefused hclear hx
      · simp only [hcontainer] at hclear
        cases hclear
    | array items =>
      rw [getTokens_cons_array] at hx
      obtain ⟨i, hi, hx⟩ := Option.bind_eq_some_iff.mp hx
      obtain ⟨item, hitem, hx⟩ := Option.bind_eq_some_iff.mp hx
      rw [replaces_array, hi] at hclear
      rw [refused_array, hi] at hrefused
      simp only [Option.bind_some, hitem] at hclear hrefused
      rw [← htail] at hrefused hclear
      exact ih hrefused hclear hx
    | _ => cases hx

end Wiremux.DocumentPositions
