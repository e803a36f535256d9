import Wiremux.MessagesParts
import Wiremux.MessagesThinking

set_option autoImplicit false

/-!
# What prompt caching changes in a Messages body

Tagging writes markers on whole blocks, at most two of them. Before it, every
`cache_control` of the body is removed, which changes nothing but markers when
there is no such member inside a block.
-/
namespace Wiremux.MessagesMarkers
open JsonValue Losses MessagesCache MessagesSampling MessagesThinking MessagesParts

def unmark (block : Value) : Value := block.remove cacheControlKey

def isMarked (block : Value) : Bool := (block.get? cacheControlKey).isSome

def plainBlocks : Value → Value
  | .string text => .array [textBlock text]
  | .array blocks => .array (blocks.map unmark)
  | other => other

def plainMessage (message : Value) : Value :=
  match message.get? "content" with
  | some content => message.insert "content" (plainBlocks content)
  | none => message

def plainMessages : Value → Value
  | .array messages => .array (messages.map plainMessage)
  | other => other

def plainMember (key : String) (value : Value) : Value :=
  if key = "tools" ∨ key = "system" then plainBlocks value
  else if key = "messages" then plainMessages value
  else value

def plainFields (fields : List (String × Value)) : List (String × Value) :=
  fields.map fun f => (f.1, plainMember f.1 f.2)

/-- A body without the markers of its blocks. -/
def plainBody : Value → Value
  | .object fields => .object (plainFields fields)
  | other => other

def blocksIn : Option Value → List Value
  | some (.array blocks) => blocks
  | _ => []

def contentBlocks (message : Value) : List Value := blocksIn (message.get? "content")

def messageBlocks (messages : Option Value) : List Value := (blocksIn messages).flatMap contentBlocks

def slotBlocks (key : String) (value : Option Value) : List Value :=
  if key = "messages" then messageBlocks value else blocksIn value

def markedIn (key : String) (b : Value) : ℕ := (slotBlocks key (b.get? key)).countP isMarked

/-- The markers on tools, system blocks and blocks of messages. -/
def markerCount (b : Value) : ℕ := markedIn "tools" b + markedIn "system" b + markedIn "messages" b

def Bears (block : Value) : Prop :=
  block.strAt? "type" ≠ some "thinking" ∧
    (block.strAt? "type" = some "text" → block.strAt? "text" ≠ some "")

/-- No marker on a thinking block or on an empty text block. -/
def Placed (key : String) (b : Value) : Prop :=
  ∀ block ∈ slotBlocks key (b.get? key), isMarked block = true → Bears block

theorem insertField_insertField (key : String) (x y : Value) (fields : List (String × Value)) :
    Value.insertField key y (Value.insertField key x fields) = Value.insertField key y fields := by
  induction fields with
  | nil => simp [Value.insertField]
  | cons field rest ih =>
    obtain ⟨k, v⟩ := field
    by_cases hk : k = key
    · simp [Value.insertField, hk]
    · simp [Value.insertField, hk, ih]

theorem insert_insert (key : String) (v x y : Value) :
    (v.insert key x).insert key y = v.insert key y := by
  cases v with
  | object fields => exact congrArg Value.object (insertField_insertField key x y fields)
  | _ => rfl

theorem isObject_of_get? {v x : Value} {key : String} (h : v.get? key = some x) :
    v.isObject = true := by
  cases v with
  | object fields => rfl
  | _ => cases h

theorem filter_insertField (key : String) (x : Value) (fields : List (String × Value)) :
    (Value.insertField key x fields).filter (fun f => f.1 ≠ key) =
      fields.filter fun f => f.1 ≠ key := by
  induction fields with
  | nil => simp [Value.insertField]
  | cons field rest ih =>
    obtain ⟨k, v⟩ := field
    by_cases hk : k = key
    · simp [Value.insertField, hk]
    · simp only [Value.insertField, hk, if_false, List.filter_cons, ih]

section

attribute [local simp] countCacheControl countItems countFields

theorem count_insertField {key : String} {old : Value} (x : Value) (hkey : key ≠ cacheControlKey)
    {fields : List (String × Value)} (h : fields.lookup key = some old) :
    countFields (Value.insertField key x fields) + countCacheControl old =
      countFields fields + countCacheControl x := by
  induction fields with
  | nil => cases h
  | cons field rest ih =>
    obtain ⟨k, v⟩ := field
    by_cases hk : k = key
    · subst hk
      rw [List.lookup_cons, beq_self_eq_true] at h
      obtain rfl := Option.some.inj h
      simp only [Value.insertField, if_pos, countFields]
      omega
    · rw [List.lookup_cons, beq_false_of_ne (Ne.symm hk)] at h
      have hrest := ih h
      simp only [Value.insertField, hk, if_false, countFields]
      omega

theorem count_insert {b old : Value} {key : String} (x : Value) (hkey : key ≠ cacheControlKey)
    (h : b.get? key = some old) :
    countCacheControl (b.insert key x) + countCacheControl old =
      countCacheControl b + countCacheControl x := by
  cases b with
  | object fields =>
    simp only [Value.insert, countCacheControl]
    exact count_insertField x hkey h
  | _ => cases h

theorem count_ephemeral (ttl : Option String) : countCacheControl (ephemeralCacheControl ttl) = 0 := by
  cases ttl <;> simp [ephemeralCacheControl, Value.insertSome, Value.insert, Value.insertField,
    cacheControlKey]

theorem count_insertMarker (x : Value) (hx : countCacheControl x = 0) (fields : List (String × Value)) :
    countFields (Value.insertField cacheControlKey x fields) ≤ countFields fields + 1 := by
  induction fields with
  | nil => simp [Value.insertField, hx]
  | cons field rest ih =>
    obtain ⟨k, v⟩ := field
    by_cases hk : k = cacheControlKey
    · simp only [Value.insertField, hk, if_pos, countFields, hx]
      omega
    · simp only [Value.insertField, hk, if_false, countFields]
      omega

theorem count_tag (ttl : Option String) (block : Value) :
    countCacheControl (tag ttl block) ≤ countCacheControl block + 1 := by
  have hx := count_ephemeral ttl
  cases block with
  | object fields =>
    simp only [tag, indexSet, Value.insert, countCacheControl]
    exact count_insertMarker _ hx fields
  | null => simp [tag, indexSet, hx]
  | _ => exact Nat.le_succ _

theorem count_taggedText (ttl : Option String) (text : String) :
    countCacheControl (taggedText ttl text) = 1 := by
  simp [taggedText, count_ephemeral, cacheControlKey]

end

/-- A list in which at most one value is replaced by `f` of it. -/
inductive OneChanged (f : Value → Value) : List Value → List Value → Prop where
  | refl (l : List Value) : OneChanged f l l
  | here (v : Value) (rest : List Value) : OneChanged f (v :: rest) (f v :: rest)
  | there (v : Value) {rest rest' : List Value} : OneChanged f rest rest' →
      OneChanged f (v :: rest) (v :: rest')

variable {f : Value → Value} {l l' : List Value}

theorem oneChanged_first (f : Value → Value) (l : List Value) : OneChanged f l (onFirst f l) := by
  cases l with
  | nil => exact .refl _
  | cons v rest => exact .here v rest

theorem oneChanged_last (f : Value → Value) (l : List Value) : OneChanged f l (onLast f l) := by
  induction l with
  | nil => exact .refl _
  | cons v rest ih =>
    cases rest with
    | nil => exact .here v []
    | cons w more => exact .there v ih

theorem oneChanged_user (f : Value → Value) (l : List Value) : OneChanged f l (onFirstUser f l) := by
  induction l with
  | nil => exact .refl _
  | cons v rest ih =>
    unfold onFirstUser
    split
    · exact .here v rest
    · exact .there v ih

theorem OneChanged.count (h : OneChanged f l l') (hf : ∀ v ∈ l, countCacheControl (f v) ≤ countCacheControl v + 1) :
    countItems l' ≤ countItems l + 1 := by
  induction h with
  | refl => exact Nat.le_succ _
  | here v rest =>
    have := hf v List.mem_cons_self
    simp only [countItems]
    omega
  | there v _ ih =>
    have := ih fun w hw => hf w (List.mem_cons_of_mem _ hw)
    simp only [countItems]
    omega

theorem OneChanged.map {β : Type*} (h : OneChanged f l l') {g : Value → β} (hf : ∀ v ∈ l, g (f v) = g v) :
    l'.map g = l.map g := by
  induction h with
  | refl => rfl
  | here v rest => rw [List.map_cons, List.map_cons, hf v List.mem_cons_self]
  | there v _ ih => rw [List.map_cons, List.map_cons, ih fun w hw => hf w (List.mem_cons_of_mem _ hw)]

/-- What holds of the blocks of each value, and of those of the changed one. -/
theorem OneChanged.forall (h : OneChanged f l l') {P : Value → Prop} (hl : ∀ v ∈ l, P v)
    (hf : ∀ v ∈ l, P (f v)) : ∀ v ∈ l', P v := by
  induction h with
  | refl => exact hl
  | here v rest =>
    intro w hw
    rcases List.mem_cons.mp hw with rfl | hw
    · exact hf v List.mem_cons_self
    · exact hl w (List.mem_cons_of_mem _ hw)
  | there v _ ih =>
    intro w hw
    rcases List.mem_cons.mp hw with rfl | hw
    · exact hl w List.mem_cons_self
    · exact ih (fun u hu => hl u (List.mem_cons_of_mem _ hu))
        (fun u hu => hf u (List.mem_cons_of_mem _ hu)) w hw

theorem OneChanged.marked (h : OneChanged f l l') (blocks : Value → List Value)
    (hf : ∀ v ∈ l, (blocks (f v)).countP isMarked ≤ (blocks v).countP isMarked + 1) :
    (l'.flatMap blocks).countP isMarked ≤ (l.flatMap blocks).countP isMarked + 1 := by
  induction h with
  | refl => exact Nat.le_succ _
  | here v rest =>
    have := hf v List.mem_cons_self
    simp only [List.flatMap_cons, List.countP_append]
    omega
  | there v _ ih =>
    have := ih fun w hw => hf w (List.mem_cons_of_mem _ hw)
    simp only [List.flatMap_cons, List.countP_append]
    omega

theorem OneChanged.markedBlocks (h : OneChanged f l l') :
    l'.countP isMarked ≤ l.countP isMarked + 1 := by
  have hself := h.marked (fun v => [v]) fun v _ =>
    (List.countP_le_length).trans (Nat.le_add_left 1 _)
  simpa using hself

variable {ttl : Option String}

theorem unmark_tag {block : Value} (h : block.isObject = true) :
    unmark (tag ttl block) = unmark block := by
  cases block with
  | object fields => exact congrArg Value.object (filter_insertField cacheControlKey _ fields)
  | _ => cases h

theorem get?_tag {block : Value} (h : block.isObject = true) {key : String}
    (hkey : key ≠ cacheControlKey) : (tag ttl block).get? key = block.get? key := by
  cases block with
  | object fields => exact Value.lookup_insertField_of_ne _ hkey fields
  | _ => cases h

theorem isMarked_tag {block : Value} (h : block.isObject = true) : isMarked (tag ttl block) = true := by
  cases block with
  | object fields =>
    change (List.lookup _ _).isSome = true
    rw [Value.lookup_insertField_self]
    rfl
  | _ => cases h

theorem bears_tag {block : Value} (h : block.isObject = true) (hbears : Bears block) :
    Bears (tag ttl block) := by
  unfold Bears Value.strAt? at *
  rw [get?_tag h (by decide), get?_tag h (by decide)]
  exact hbears

theorem plain_taggedText (text : String) :
    plainBlocks (taggedText ttl text) = plainBlocks (.string text) := by
  simp [taggedText, plainBlocks, unmark, Value.remove, textBlock, cacheControlKey]

theorem blocksIn_taggedText (text : String) : (blocksIn (some (taggedText ttl text))).countP isMarked = 1 := by
  simp [taggedText, blocksIn, isMarked, Value.get?, cacheControlKey, List.lookup_cons]

theorem bears_taggedText {text : String} (h : text ≠ "") :
    ∀ block ∈ blocksIn (some (taggedText ttl text)), Bears block := by
  intro block hmem
  obtain rfl := List.mem_singleton.mp hmem
  refine ⟨?_, fun _ => ?_⟩
  · change some "text" ≠ some "thinking"
    decide
  · change some text ≠ some ""
    simpa using h

theorem chosenBlock_spec {parts : List Value} {i : ℕ} (h : chosenBlock parts = some i) :
    ∃ part, parts[i]? = some part ∧ (nonemptyTextBlock part = true ∨ cacheableUserBlock part = true) := by
  have htext : ∀ j, parts.findIdx? nonemptyTextBlock = some j →
      ∃ part, parts[j]? = some part ∧ nonemptyTextBlock part = true := by
    intro j hj
    obtain ⟨hlt, hpart, _⟩ := List.findIdx?_eq_some_iff_getElem.mp hj
    exact ⟨parts[j], List.getElem?_eq_getElem hlt, hpart⟩
  have hpayload : ∀ j, (parts.reverse.findIdx? cacheableUserBlock).map
      (fun i => parts.length - 1 - i) = some j →
      ∃ part, parts[j]? = some part ∧ cacheableUserBlock part = true := by
    intro j hj
    obtain ⟨k, hk, rfl⟩ := Option.map_eq_some_iff.mp hj
    obtain ⟨hlt, hpart, _⟩ := List.findIdx?_eq_some_iff_getElem.mp hk
    rw [List.length_reverse] at hlt
    refine ⟨parts.reverse[k], ?_, hpart⟩
    rw [← List.getElem?_reverse hlt, List.getElem?_eq_getElem]
  unfold chosenBlock at h
  dsimp only at h
  split at h
  · obtain ⟨part, hpart, hnonempty⟩ := htext i h
    exact ⟨part, hpart, Or.inl hnonempty⟩
  · rcases Option.or_eq_some_iff.mp h with h | ⟨_, h⟩
    · obtain ⟨part, hpart, hcacheable⟩ := hpayload i h
      exact ⟨part, hpart, Or.inr hcacheable⟩
    · obtain ⟨part, hpart, hnonempty⟩ := htext i h
      exact ⟨part, hpart, Or.inl hnonempty⟩

theorem isObject_of_strAt? {v : Value} {key text : String} (h : v.strAt? key = some text) :
    v.isObject = true := by
  obtain ⟨x, hx, _⟩ := Option.bind_eq_some_iff.mp h
  exact isObject_of_get? hx

theorem chosen_bears {part : Value}
    (h : nonemptyTextBlock part = true ∨ cacheableUserBlock part = true) :
    part.isObject = true ∧ Bears part := by
  rcases h with h | h
  · obtain ⟨htype, htext⟩ := Bool.and_eq_true_iff.mp h
    have htype := beq_iff_eq.mp htype
    refine ⟨isObject_of_strAt? htype, ?_, fun _ hempty => ?_⟩
    · rw [htype]
      decide
    · rw [hempty] at htext
      exact absurd htext (by decide)
  · unfold cacheableUserBlock at h
    obtain ⟨ty, htype⟩ : ∃ ty, part.strAt? "type" = some ty := by
      cases htype : part.strAt? "type" with
      | none =>
        rw [htype] at h
        cases h
      | some ty => exact ⟨ty, rfl⟩
    rw [htype] at h
    have hmem : ty ∈ ["image", "document", "tool_result", "tool_use"] := List.contains_iff_mem.mp h
    refine ⟨isObject_of_strAt? htype, ?_, ?_⟩
    · rw [htype]
      rintro heq
      obtain rfl := Option.some.inj heq
      exact absurd hmem (by decide)
    · rw [htype]
      intro heq
      obtain rfl := Option.some.inj heq
      exact absurd hmem (by decide)

/-- The content of a user turn with one block tagged. -/
inductive TaggedParts (ttl : Option String) : List Value → List Value → Prop where
  | none (parts : List Value) : TaggedParts ttl parts parts
  | here (part : Value) (rest : List Value) : part.isObject = true → Bears part →
      TaggedParts ttl (part :: rest) (tag ttl part :: rest)
  | there (part : Value) {rest rest' : List Value} : TaggedParts ttl rest rest' →
      TaggedParts ttl (part :: rest) (part :: rest')

theorem taggedParts_modify (ttl : Option String) {parts : List Value} {i : ℕ} {part : Value}
    (hpart : parts[i]? = some part) (hobject : part.isObject = true) (hbears : Bears part) :
    TaggedParts ttl parts (parts.modify i (tag ttl)) ∧
      0 < (parts.modify i (tag ttl)).countP isMarked := by
  induction parts generalizing i with
  | nil => cases hpart
  | cons first rest ih =>
    cases i with
    | zero =>
      obtain rfl := Option.some.inj hpart
      refine ⟨.here first rest hobject hbears, ?_⟩
      change 0 < (tag ttl first :: rest).countP isMarked
      rw [List.countP_cons_of_pos (isMarked_tag hobject)]
      exact Nat.succ_pos _
    | succ i =>
      obtain ⟨htagged, hpos⟩ := ih (i := i) hpart
      refine ⟨.there first htagged, ?_⟩
      change 0 < (first :: rest.modify i (tag ttl)).countP isMarked
      rw [List.countP_cons]
      omega

theorem tagUserContentBlocks_tagged (ttl : Option String) (parts : List Value) :
    TaggedParts ttl parts (tagUserContentBlocks parts ttl) ∧
      (tagUserContentBlocks parts ttl = parts ∨
        0 < (tagUserContentBlocks parts ttl).countP isMarked) := by
  unfold tagUserContentBlocks
  cases hchosen : chosenBlock parts with
  | none => exact ⟨.none parts, Or.inl rfl⟩
  | some i =>
    obtain ⟨part, hpart, hkind⟩ := chosenBlock_spec hchosen
    obtain ⟨hobject, hbears⟩ := chosen_bears hkind
    obtain ⟨htagged, hpos⟩ := taggedParts_modify ttl hpart hobject hbears
    exact ⟨htagged, Or.inr hpos⟩

theorem TaggedParts.map_unmark {parts parts' : List Value} (h : TaggedParts ttl parts parts') :
    parts'.map unmark = parts.map unmark := by
  induction h with
  | none => rfl
  | here part rest hobject _ => rw [List.map_cons, List.map_cons, unmark_tag hobject]
  | there part _ ih => rw [List.map_cons, List.map_cons, ih]

theorem TaggedParts.count {parts parts' : List Value} (h : TaggedParts ttl parts parts') :
    countItems parts' ≤ countItems parts + 1 ∧
      parts'.countP isMarked ≤ parts.countP isMarked + 1 := by
  induction h with
  | none => exact ⟨Nat.le_succ _, Nat.le_succ _⟩
  | here part rest hobject _ =>
    have := count_tag ttl part
    simp only [countItems, List.countP_cons]
    split <;> split <;> constructor <;> omega
  | there part _ ih =>
    obtain ⟨hcount, hmarked⟩ := ih
    simp only [countItems, List.countP_cons]
    constructor <;> omega

theorem TaggedParts.bears {parts parts' : List Value} (h : TaggedParts ttl parts parts')
    (hparts : ∀ block ∈ parts, isMarked block = true → Bears block) :
    ∀ block ∈ parts', isMarked block = true → Bears block := by
  induction h with
  | none => exact hparts
  | here part rest hobject hbears =>
    intro block hmem hmarked
    rcases List.mem_cons.mp hmem with rfl | hmem
    · exact bears_tag hobject hbears
    · exact hparts block (List.mem_cons_of_mem _ hmem) hmarked
  | there part _ ih =>
    intro block hmem hmarked
    rcases List.mem_cons.mp hmem with rfl | hmem
    · exact hparts block List.mem_cons_self hmarked
    · exact ih (fun other hother => hparts other (List.mem_cons_of_mem _ hother)) block hmem hmarked

theorem plainFields_insertField (key : String) (x : Value) (fields : List (String × Value)) :
    plainFields (Value.insertField key x fields) =
      Value.insertField key (plainMember key x) (plainFields fields) := by
  induction fields with
  | nil => rfl
  | cons field rest ih =>
    obtain ⟨k, v⟩ := field
    by_cases hk : k = key
    · simp [Value.insertField, plainFields, hk]
    · simp only [plainFields, Value.insertField, hk, if_false, List.map_cons] at ih ⊢
      rw [ih]

theorem lookup_plainFields (key : String) (fields : List (String × Value)) :
    (plainFields fields).lookup key = (fields.lookup key).map (plainMember key) := by
  induction fields with
  | nil => rfl
  | cons field rest ih =>
    obtain ⟨k, v⟩ := field
    by_cases hk : key = k
    · subst hk
      simp [plainFields]
    · simp only [plainFields, List.map_cons, List.lookup_cons, beq_false_of_ne hk] at ih ⊢
      exact ih

theorem plainBody_insert {b old x : Value} {key : String} (h : b.get? key = some old)
    (hx : plainMember key x = plainMember key old) : plainBody (b.insert key x) = plainBody b := by
  cases b with
  | object fields =>
    refine congrArg Value.object ?_
    rw [plainFields_insertField, hx]
    refine Value.insertField_of_lookup ?_
    rw [lookup_plainFields]
    exact congrArg (Option.map (plainMember key)) h
  | _ => cases h

/-- What writing one marker in a slot changes. -/
structure Marks (slot : String) (b b' : Value) : Prop where
  plain : plainBody b' = plainBody b
  count : countCacheControl b' ≤ countCacheControl b + 1
  marked : markedIn slot b' ≤ markedIn slot b + 1
  placed : slot ≠ "tools" → Placed slot b → Placed slot b'
  others : ∀ key, key ≠ slot → b'.get? key = b.get? key

theorem Marks.refl (slot : String) (b : Value) : Marks slot b b where
  plain := rfl
  count := Nat.le_succ _
  marked := Nat.le_succ _
  placed := fun _ h => h
  others := fun _ _ => rfl

variable {b old x : Value} {slot : String}

theorem Marks.insert (hslot : slot ≠ cacheControlKey) (h : b.get? slot = some old)
    (hplain : plainMember slot x = plainMember slot old)
    (hcount : countCacheControl x ≤ countCacheControl old + 1)
    (hmarked : (slotBlocks slot (some x)).countP isMarked ≤
      (slotBlocks slot (some old)).countP isMarked + 1)
    (hplaced : slot ≠ "tools" →
      (∀ block ∈ slotBlocks slot (some old), isMarked block = true → Bears block) →
      ∀ block ∈ slotBlocks slot (some x), isMarked block = true → Bears block) :
    Marks slot b (b.insert slot x) := by
  have hnew := Value.get?_insert_self slot x (isObject_of_get? h)
  refine ⟨plainBody_insert h hplain, ?_, ?_, ?_, fun key hkey => Value.get?_insert_of_ne _ _ hkey⟩
  · have hinsert := count_insert x hslot h
    omega
  · unfold markedIn
    rw [hnew, h]
    exact hmarked
  · unfold Placed
    rw [hnew, h]
    exact hplaced

theorem Marks.blocks {blocks blocks' : List Value} (hslot : slot = "tools" ∨ slot = "system")
    (h : b.get? slot = some (.array blocks)) (hchanged : OneChanged (tag ttl) blocks blocks')
    (hobject : ∀ block ∈ blocks, block.isObject = true)
    (hbears : slot ≠ "tools" → ∀ block ∈ blocks, Bears block) :
    Marks slot b (b.insert slot (.array blocks')) := by
  have hslots : ∀ value, slotBlocks slot value = blocksIn value := by
    intro value
    rcases hslot with rfl | rfl <;> rfl
  refine Marks.insert ?_ h ?_ ?_ ?_ fun htools hplaced => ?_
  · rcases hslot with rfl | rfl <;> decide
  · unfold plainMember
    rw [if_pos hslot, if_pos hslot]
    exact congrArg Value.array (hchanged.map fun block hmem => unmark_tag (hobject block hmem))
  · simpa [countCacheControl] using hchanged.count fun block _ => count_tag ttl block
  · rw [hslots, hslots]
    exact hchanged.markedBlocks
  · rw [hslots] at hplaced ⊢
    have hblocks := hbears htools
    exact hchanged.forall (P := fun block => isMarked block = true → Bears block) hplaced
      fun block hmem _ => bears_tag (hobject block hmem) (hblocks block hmem)

theorem mem_onFirst {f : Value → Value} {l : List Value} (h : l ≠ []) : ∃ v ∈ l, f v ∈ onFirst f l := by
  cases l with
  | nil => exact absurd rfl h
  | cons v rest => exact ⟨v, List.mem_cons_self, List.mem_cons_self⟩

theorem mem_onLast {f : Value → Value} {l : List Value} (h : l ≠ []) : ∃ v ∈ l, f v ∈ onLast f l := by
  induction l with
  | nil => exact absurd rfl h
  | cons v rest ih =>
    cases rest with
    | nil => exact ⟨v, List.mem_cons_self, List.mem_cons_self⟩
    | cons w more =>
      obtain ⟨u, hu, hmem⟩ := ih (by simp)
      exact ⟨u, List.mem_cons_of_mem _ hu, List.mem_cons_of_mem _ hmem⟩

theorem marked_of_tag {blocks blocks' : List Value} (hobject : ∀ block ∈ blocks, block.isObject = true)
    (h : ∃ block ∈ blocks, tag ttl block ∈ blocks') : 0 < blocks'.countP isMarked := by
  obtain ⟨block, hmem, htagged⟩ := h
  exact List.countP_pos_iff.mpr ⟨_, htagged, isMarked_tag (hobject block hmem)⟩

def ToolObjects (tools : Option Value) : Prop := ∀ tool ∈ blocksIn tools, tool.isObject = true

theorem marks_tagLastTool (ttl : Option String) (htools : ToolObjects (b.get? "tools")) :
    Marks "tools" b (tagLastTool b ttl) := by
  unfold tagLastTool
  split
  · rename_i tools hget
    rw [hget] at htools
    exact Marks.blocks (Or.inl rfl) hget (oneChanged_last _ tools) htools
      fun hne => absurd rfl hne
  · exact Marks.refl _ _

theorem marked_tagLastTool (ttl : Option String) (htools : ToolObjects (b.get? "tools"))
    (h : hasTools b = true) :
    0 < markedIn "tools" (tagLastTool b ttl) := by
  unfold hasTools at h
  cases hget : b.get? "tools" with
  | none =>
    rw [hget] at h
    cases h
  | some value =>
    rw [hget] at h htools
    cases value with
    | array tools =>
      have hne : tools ≠ [] := by
        rintro rfl
        cases h
      unfold tagLastTool markedIn
      rw [hget]
      dsimp only
      rw [Value.get?_insert_self _ _ (isObject_of_get? hget)]
      exact marked_of_tag htools (mem_onLast hne)
    | _ => cases h

/-- A text, or blocks that can carry a marker. -/
def TextSystem (system : Option Value) : Prop :=
  ∀ value, system = some value → (∃ text : String, value = .string text ∧ text ≠ "") ∨
    ∃ blocks, value = .array blocks ∧ ∀ block ∈ blocks, block.isObject = true ∧ Bears block

theorem marks_tagSystemSlot (ttl : Option String) (first : Bool) (h : TextSystem (b.get? "system")) :
    Marks "system" b (tagSystemSlot b ttl first).2 ∧
      ((tagSystemSlot b ttl first).1 = true → 0 < markedIn "system" (tagSystemSlot b ttl first).2) ∧
      ((tagSystemSlot b ttl first).1 = false → (tagSystemSlot b ttl first).2 = b) := by
  unfold tagSystemSlot
  cases hget : b.get? "system" with
  | none => exact ⟨Marks.refl _ _, (fun hmarked => by cases hmarked), fun _ => rfl⟩
  | some value =>
    have hnew : ∀ x, (b.insert "system" x).get? "system" = some x := fun x =>
      Value.get?_insert_self _ _ (isObject_of_get? hget)
    rcases h value hget with ⟨text, rfl, hne⟩ | ⟨blocks, rfl, hblocks⟩
    · refine ⟨Marks.insert (by decide) hget (plain_taggedText text) ?_ ?_ fun _ _ block hmem _ => ?_,
        fun _ => ?_, fun hmarked => by cases hmarked⟩
      · rw [count_taggedText]
        exact Nat.le_add_left _ _
      · change (blocksIn (some (taggedText ttl text))).countP isMarked ≤ _
        rw [blocksIn_taggedText]
        exact Nat.le_add_left _ _
      · exact bears_taggedText hne block hmem
      · unfold markedIn
        rw [hnew]
        change 0 < (blocksIn (some (taggedText ttl text))).countP isMarked
        rw [blocksIn_taggedText]
        exact Nat.one_pos
    · have hobject := fun block hmem => (hblocks block hmem).1
      have hbears := fun block hmem => (hblocks block hmem).2
      cases blocks with
      | nil => exact ⟨Marks.refl _ _, (fun hmarked => by cases hmarked), fun _ => rfl⟩
      | cons block rest =>
        refine ⟨?_, fun _ => ?_,
          fun hmarked => by cases hmarked⟩
        · cases first
          · exact Marks.blocks (Or.inr rfl) hget (oneChanged_last _ _) hobject fun _ => hbears
          · exact Marks.blocks (Or.inr rfl) hget (oneChanged_first _ _) hobject fun _ => hbears
        · unfold markedIn
          rw [hnew]
          refine marked_of_tag hobject (?_ : ∃ v ∈ block :: rest, tag ttl v ∈ _)
          cases first
          · exact mem_onLast (List.cons_ne_nil _ _)
          · exact mem_onFirst (List.cons_ne_nil _ _)

structure MarksMessage (m m' : Value) : Prop where
  plain : plainMessage m' = plainMessage m
  count : countCacheControl m' ≤ countCacheControl m + 1
  marked : (contentBlocks m').countP isMarked ≤ (contentBlocks m).countP isMarked + 1
  placed : (∀ block ∈ contentBlocks m, isMarked block = true → Bears block) →
    ∀ block ∈ contentBlocks m', isMarked block = true → Bears block
  seen : m' = m ∨ 0 < (contentBlocks m').countP isMarked

theorem MarksMessage.refl (m : Value) : MarksMessage m m where
  plain := rfl
  count := Nat.le_succ _
  marked := Nat.le_succ _
  placed := fun h => h
  seen := Or.inl rfl

theorem plainMessage_insert {m : Value} (h : m.get? "content" = some old)
    (hplain : plainBlocks x = plainBlocks old) : plainMessage (m.insert "content" x) = plainMessage m := by
  unfold plainMessage
  rw [Value.get?_insert_self _ _ (isObject_of_get? h), h]
  dsimp only
  rw [insert_insert, hplain]

theorem MarksMessage.insert {m : Value} (h : m.get? "content" = some old)
    (hplain : plainBlocks x = plainBlocks old)
    (hcount : countCacheControl x ≤ countCacheControl old + 1)
    (hmarked : (blocksIn (some x)).countP isMarked ≤ (blocksIn (some old)).countP isMarked + 1)
    (hplaced : (∀ block ∈ blocksIn (some old), isMarked block = true → Bears block) →
      ∀ block ∈ blocksIn (some x), isMarked block = true → Bears block)
    (hseen : x = old ∨ 0 < (blocksIn (some x)).countP isMarked) :
    MarksMessage m (m.insert "content" x) := by
  have hold : contentBlocks m = blocksIn (some old) := congrArg blocksIn h
  have hnew : contentBlocks (m.insert "content" x) = blocksIn (some x) :=
    congrArg blocksIn (Value.get?_insert_self _ _ (isObject_of_get? h))
  refine ⟨plainMessage_insert h hplain, ?_, ?_, ?_, ?_⟩
  · have hinsert := count_insert x (by decide) h
    omega
  · rw [hnew, hold]
    exact hmarked
  · rw [hnew, hold]
    exact hplaced
  · rw [hnew]
    refine hseen.imp_left fun heq => ?_
    rw [heq]
    exact Value.insert_of_get? h

theorem marks_tagUser (ttl : Option String) (m : Value) : MarksMessage m (tagUser ttl m) := by
  unfold tagUser
  split
  · rename_i parts hget
    obtain ⟨htagged, hseen⟩ := tagUserContentBlocks_tagged ttl parts
    obtain ⟨hcount, hmarked⟩ := htagged.count
    refine MarksMessage.insert hget (congrArg Value.array htagged.map_unmark) ?_ hmarked htagged.bears
      (hseen.imp_left (congrArg Value.array))
    simpa [countCacheControl] using hcount
  · rename_i text hget
    cases hblank : isBlank text with
    | true => exact MarksMessage.refl m
    | false =>
      have hne : text ≠ "" := by
        rintro rfl
        cases hblank
      refine MarksMessage.insert hget (plain_taggedText text) ?_ ?_
        (fun _ block hmem _ => bears_taggedText hne block hmem) (Or.inr ?_)
      · rw [count_taggedText]
        exact Nat.le_add_left _ _
      · rw [blocksIn_taggedText]
        exact Nat.le_add_left _ _
      · rw [blocksIn_taggedText]
        exact Nat.one_pos
  · exact MarksMessage.refl m

theorem onFirstUser_seen (f : Value → Value) (l : List Value) :
    onFirstUser f l = l ∨ ∃ m ∈ l, f m ≠ m ∧ f m ∈ onFirstUser f l := by
  induction l with
  | nil => exact Or.inl rfl
  | cons m rest ih =>
    unfold onFirstUser
    split
    · by_cases heq : f m = m
      · exact Or.inl (by rw [heq])
      · exact Or.inr ⟨m, List.mem_cons_self, heq, List.mem_cons_self⟩
    · rcases ih with heq | ⟨u, hmem, hne, htagged⟩
      · exact Or.inl (by rw [heq])
      · exact Or.inr ⟨u, List.mem_cons_of_mem _ hmem, hne, List.mem_cons_of_mem _ htagged⟩

theorem marks_tagFirstUserText (ttl : Option String) (b : Value) :
    Marks "messages" b (tagFirstUserText b ttl) ∧
      (tagFirstUserText b ttl = b ∨ 0 < markedIn "messages" (tagFirstUserText b ttl)) := by
  unfold tagFirstUserText
  split
  · rename_i messages hget
    have hchanged := oneChanged_user (tagUser ttl) messages
    have hslots : ∀ l, slotBlocks "messages" (some (.array l)) = l.flatMap contentBlocks := fun _ => rfl
    refine ⟨Marks.insert (by decide) hget ?_ ?_ ?_ fun _ hplaced => ?_, ?_⟩
    · exact congrArg Value.array (hchanged.map fun m _ => (marks_tagUser ttl m).plain)
    · simpa [countCacheControl] using hchanged.count fun m _ => (marks_tagUser ttl m).count
    · rw [hslots, hslots]
      exact hchanged.marked contentBlocks fun m _ => (marks_tagUser ttl m).marked
    · rw [hslots] at hplaced ⊢
      have heach : ∀ m ∈ messages, ∀ block ∈ contentBlocks m, isMarked block = true → Bears block :=
        fun m hm block hmem => hplaced block (List.mem_flatMap.mpr ⟨m, hm, hmem⟩)
      have hnew := hchanged.forall
        (P := fun m => ∀ block ∈ contentBlocks m, isMarked block = true → Bears block) heach
        fun m hm => (marks_tagUser ttl m).placed (heach m hm)
      intro block hmem
      obtain ⟨m, hm, hblock⟩ := List.mem_flatMap.mp hmem
      exact hnew m hm block hblock
    · rcases onFirstUser_seen (tagUser ttl) messages with heq | ⟨m, _, hne, hmem⟩
      · rw [heq]
        exact Or.inl (Value.insert_of_get? hget)
      · refine Or.inr ?_
        have hseen := (marks_tagUser ttl m).seen.resolve_left hne
        unfold markedIn
        rw [Value.get?_insert_self _ _ (isObject_of_get? hget), hslots]
        obtain ⟨block, hblock, hmarked⟩ := List.countP_pos_iff.mp hseen
        exact List.countP_pos_iff.mpr ⟨block, List.mem_flatMap.mpr ⟨_, hmem, hblock⟩, hmarked⟩
  · exact ⟨Marks.refl _ _, Or.inl rfl⟩

theorem markedIn_congr {b b' : Value} {key : String} (h : b'.get? key = b.get? key) :
    markedIn key b' = markedIn key b := by rw [markedIn, h, markedIn]

theorem Marks.markers {b b' : Value} (h : Marks slot b b') (hslot : slot ∈ taggedKeys) :
    markerCount b' ≤ markerCount b + 1 := by
  have hmarked := h.marked
  have hothers : ∀ key, key ≠ slot → markedIn key b' = markedIn key b := fun key hkey =>
    markedIn_congr (h.others key hkey)
  unfold markerCount
  rcases List.mem_cons.mp hslot with rfl | hslot
  · rw [hothers "system" (by decide), hothers "messages" (by decide)]
    omega
  · rcases List.mem_cons.mp hslot with rfl | hslot
    · rw [hothers "tools" (by decide), hothers "messages" (by decide)]
      omega
    · obtain rfl := List.mem_singleton.mp hslot
      rw [hothers "system" (by decide), hothers "tools" (by decide)]
      omega

theorem Marks.placedIn {b b' : Value} {key : String} (h : Marks slot b b') (hkey : key ≠ "tools")
    (hplaced : Placed key b) : Placed key b' := by
  by_cases heq : key = slot
  · subst heq
    exact h.placed hkey hplaced
  · unfold Placed
    rw [h.others key heq]
    exact hplaced

structure Breakpoints (b b' : Value) : Prop where
  plain : plainBody b' = plainBody b
  count : countCacheControl b' ≤ countCacheControl b + 2
  marked : markerCount b' ≤ markerCount b + 2
  placed : ∀ key, key ≠ "tools" → Placed key b → Placed key b'

theorem Marks.andThen {first second : String} {b b₁ b₂ : Value} (h₁ : Marks first b b₁)
    (h₂ : Marks second b₁ b₂) (hfirst : first ∈ taggedKeys) (hsecond : second ∈ taggedKeys) :
    Breakpoints b b₂ where
  plain := h₂.plain.trans h₁.plain
  count := by
    have hcount₁ := h₁.count
    have hcount₂ := h₂.count
    omega
  marked := by
    have hmarked₁ := h₁.markers hfirst
    have hmarked₂ := h₂.markers hsecond
    omega
  placed := fun _ hkey hplaced => h₂.placedIn hkey (h₁.placedIn hkey hplaced)

theorem markedIn_le {key : String} (hkey : key ∈ taggedKeys) (b : Value) :
    markedIn key b ≤ markerCount b := by
  unfold markerCount
  rcases List.mem_cons.mp hkey with rfl | hkey
  · omega
  · rcases List.mem_cons.mp hkey with rfl | hkey
    · omega
    · obtain rfl := List.mem_singleton.mp hkey
      omega

theorem breakpoints_systemUser (first : Bool) (hsystem : TextSystem (b.get? "system")) :
    let b' := tagFirstUserText (tagSystemSlot b ttl first).2 ttl
    Breakpoints b b' ∧ (b' = b ∨ 0 < markerCount b') := by
  obtain ⟨hmarks, hmarked, hsame⟩ := marks_tagSystemSlot ttl first hsystem
  obtain ⟨huser, hseen⟩ := marks_tagFirstUserText ttl (tagSystemSlot b ttl first).2
  refine ⟨hmarks.andThen huser (by decide) (by decide), ?_⟩
  rcases hseen with hseen | hseen
  · rw [hseen]
    cases htagged : (tagSystemSlot b ttl first).1 with
    | true => exact Or.inr ((hmarked htagged).trans_le (markedIn_le (by decide) _))
    | false => exact Or.inl (hsame htagged)
  · exact Or.inr (hseen.trans_le (markedIn_le (by decide) _))

theorem breakpoints_preferred (ttl : Option String) (htools : ToolObjects (b.get? "tools"))
    (hsystem : TextSystem (b.get? "system")) :
    Breakpoints b (applyPreferredCacheBreakpoints b ttl) ∧
      (applyPreferredCacheBreakpoints b ttl = b ∨ 0 < markerCount (applyPreferredCacheBreakpoints b ttl)) := by
  unfold applyPreferredCacheBreakpoints
  dsimp only
  split
  · split
    · rename_i hhas
      have htool := marks_tagLastTool ttl htools
      have hshown := marked_tagLastTool ttl htools hhas
      have hsystem' : TextSystem ((tagLastTool b ttl).get? "system") := by
        rw [htool.others "system" (by decide)]
        exact hsystem
      obtain ⟨hslot, hmarked, hsame⟩ := marks_tagSystemSlot ttl true hsystem'
      split
      · rename_i htagged
        exact ⟨htool.andThen hslot (by decide) (by decide),
          Or.inr ((hmarked htagged).trans_le (markedIn_le (by decide) _))⟩
      · rename_i htagged
        rw [hsame (by simpa using htagged)]
        obtain ⟨huser, _⟩ := marks_tagFirstUserText ttl (tagLastTool b ttl)
        refine ⟨htool.andThen huser (by decide) (by decide), Or.inr ?_⟩
        have hkept := markedIn_congr (huser.others "tools" (by decide))
        exact (hkept ▸ hshown : 0 < markedIn "tools" _).trans_le (markedIn_le (by decide) _)
    · exact breakpoints_systemUser true hsystem
  · split
    · exact breakpoints_systemUser false hsystem
    · rename_i htagged
      obtain ⟨_, _, hsame⟩ := marks_tagSystemSlot ttl false hsystem
      rw [hsame (by simpa using htagged)]
      exact breakpoints_systemUser true hsystem

mutual
theorem count_strip : (v : Value) → countCacheControl (stripAllCacheControl v) = 0
  | .array items => by
    rw [stripAllCacheControl, countCacheControl]
    exact count_stripItems items
  | .object fields => by
    rw [stripAllCacheControl, countCacheControl]
    exact count_stripFields fields
  | .null => by simp [stripAllCacheControl, countCacheControl]
  | .bool _ => by simp [stripAllCacheControl, countCacheControl]
  | .number _ => by simp [stripAllCacheControl, countCacheControl]
  | .string _ => by simp [stripAllCacheControl, countCacheControl]

theorem count_stripItems : (items : List Value) → countItems (stripItems items) = 0
  | [] => by simp [stripItems, countItems]
  | v :: rest => by
    rw [stripItems, countItems, count_strip v, count_stripItems rest]

theorem count_stripFields : (fields : List (String × Value)) → countFields (stripFields fields) = 0
  | [] => by simp [stripFields, countFields]
  | (key, v) :: rest => by
    rw [stripFields]
    split
    · exact count_stripFields rest
    · rename_i hkey
      rw [countFields, if_neg hkey, count_strip v, count_stripFields rest]
end

mutual
theorem strip_eq_self : (v : Value) → countCacheControl v = 0 → stripAllCacheControl v = v
  | .array items, h => by
    rw [countCacheControl] at h
    rw [stripAllCacheControl, stripItems_eq_self items h]
  | .object fields, h => by
    rw [countCacheControl] at h
    rw [stripAllCacheControl, stripFields_eq_self fields h]
  | .null, _ => by simp [stripAllCacheControl]
  | .bool _, _ => by simp [stripAllCacheControl]
  | .number _, _ => by simp [stripAllCacheControl]
  | .string _, _ => by simp [stripAllCacheControl]

theorem stripItems_eq_self : (items : List Value) → countItems items = 0 → stripItems items = items
  | [], _ => by simp [stripItems]
  | v :: rest, h => by
    rw [countItems] at h
    rw [stripItems, strip_eq_self v (by omega), stripItems_eq_self rest (by omega)]

theorem stripFields_eq_self : (fields : List (String × Value)) → countFields fields = 0 →
    stripFields fields = fields
  | [], _ => by simp [stripFields]
  | (key, v) :: rest, h => by
    rw [countFields] at h
    have hkey : key ≠ cacheControlKey := by
      intro heq
      rw [if_pos heq] at h
      omega
    rw [stripFields, if_neg hkey, strip_eq_self v (by omega), stripFields_eq_self rest (by omega)]
end

theorem strip_items (items : List Value) : stripItems items = items.map stripAllCacheControl := by
  induction items with
  | nil => simp [stripItems]
  | cons v rest ih => rw [stripItems, List.map_cons, ih]

theorem filter_stripFields (fields : List (String × Value)) :
    (stripFields fields).filter (fun f => f.1 ≠ cacheControlKey) = stripFields fields := by
  induction fields with
  | nil => simp [stripFields]
  | cons field rest ih =>
    obtain ⟨k, v⟩ := field
    by_cases hk : k = cacheControlKey
    · simp only [stripFields, hk, if_pos, ih]
    · simp only [stripFields, hk, if_false, List.filter_cons, ih]
      simp [hk]

theorem stripFields_filter (fields : List (String × Value)) :
    stripFields (fields.filter fun f => f.1 ≠ cacheControlKey) = stripFields fields := by
  induction fields with
  | nil => rfl
  | cons field rest ih =>
    obtain ⟨k, v⟩ := field
    by_cases hk : k = cacheControlKey
    · simpa [stripFields, hk] using ih
    · simpa [stripFields, hk] using ih

theorem unmark_strip (v : Value) : unmark (stripAllCacheControl v) = stripAllCacheControl (unmark v) := by
  cases v with
  | object fields =>
    change (Value.remove (stripAllCacheControl (.object fields)) cacheControlKey) =
      stripAllCacheControl (.object (fields.filter fun f => f.1 ≠ cacheControlKey))
    rw [stripAllCacheControl, stripAllCacheControl, stripFields_filter]
    exact congrArg Value.object (filter_stripFields fields)
  | array items => simp [stripAllCacheControl, unmark, Value.remove]
  | _ => simp [stripAllCacheControl, unmark, Value.remove]

theorem stripFields_insert {key : String} (hkey : key ≠ cacheControlKey) (x : Value)
    (fields : List (String × Value)) : stripFields (Value.insertField key x fields) =
      Value.insertField key (stripAllCacheControl x) (stripFields fields) := by
  induction fields with
  | nil => simp [Value.insertField, stripFields, hkey]
  | cons field rest ih =>
    obtain ⟨k, v⟩ := field
    by_cases hk : k = key
    · subst hk
      simp [Value.insertField, stripFields, hkey]
    · by_cases hcache : k = cacheControlKey
      · subst hcache
        simp only [Value.insertField, hk, if_false, stripFields, if_pos, ih]
      · simp only [Value.insertField, hk, if_false, stripFields, hcache, ih]

theorem strip_insert {key : String} (hkey : key ≠ cacheControlKey) (v x : Value) :
    stripAllCacheControl (v.insert key x) =
      (stripAllCacheControl v).insert key (stripAllCacheControl x) := by
  cases v with
  | object fields =>
    simp only [Value.insert, stripAllCacheControl]
    rw [stripFields_insert hkey]
  | _ => simp [Value.insert, stripAllCacheControl]

theorem plainBlocks_strip (v : Value) :
    plainBlocks (stripAllCacheControl v) = stripAllCacheControl (plainBlocks v) := by
  cases v with
  | array blocks =>
    simp only [plainBlocks, stripAllCacheControl, strip_items, List.map_map]
    exact congrArg Value.array (List.map_congr_left fun block _ => unmark_strip block)
  | string text =>
    simp [plainBlocks, textBlock, stripAllCacheControl, stripItems, stripFields, cacheControlKey]
  | _ => simp [plainBlocks, stripAllCacheControl]

theorem plainMessage_strip (m : Value) :
    plainMessage (stripAllCacheControl m) = stripAllCacheControl (plainMessage m) := by
  unfold plainMessage
  rw [get?_strip "content" m (by decide)]
  cases m.get? "content" with
  | none => rfl
  | some content =>
    dsimp only [Option.map_some]
    rw [plainBlocks_strip, strip_insert (by decide)]

theorem plainMember_strip (key : String) (v : Value) :
    plainMember key (stripAllCacheControl v) = stripAllCacheControl (plainMember key v) := by
  unfold plainMember
  split
  · exact plainBlocks_strip v
  · split
    · cases v with
      | array messages =>
        simp only [plainMessages, stripAllCacheControl, strip_items, List.map_map]
        exact congrArg Value.array (List.map_congr_left fun m _ => plainMessage_strip m)
      | _ => simp [plainMessages, stripAllCacheControl]
    · rfl

theorem plainFields_strip (fields : List (String × Value)) :
    plainFields (stripFields fields) = stripFields (plainFields fields) := by
  induction fields with
  | nil => simp [plainFields, stripFields]
  | cons field rest ih =>
    obtain ⟨k, v⟩ := field
    by_cases hk : k = cacheControlKey
    · simpa [stripFields, plainFields, hk] using ih
    · simp only [plainFields, List.map_cons, stripFields, hk, if_false, plainMember_strip] at ih ⊢
      rw [ih]

theorem plainBody_strip (b : Value) :
    plainBody (stripAllCacheControl b) = stripAllCacheControl (plainBody b) := by
  cases b with
  | object fields =>
    simp only [plainBody, stripAllCacheControl]
    rw [plainFields_strip]
  | _ => simp [plainBody, stripAllCacheControl]

theorem unmark_stripped (v : Value) : unmark (stripAllCacheControl v) = stripAllCacheControl v := by
  cases v with
  | object fields =>
    rw [stripAllCacheControl]
    exact congrArg Value.object (filter_stripFields fields)
  | _ => simp [stripAllCacheControl, unmark, Value.remove]

theorem isMarked_strip (v : Value) : isMarked (stripAllCacheControl v) = false := by
  have hremoved : (unmark (stripAllCacheControl v)).get? cacheControlKey = none :=
    get?_remove_self _ _
  rw [unmark_stripped] at hremoved
  rw [isMarked, hremoved]
  rfl

theorem blocksIn_strip (value : Option Value) :
    blocksIn (value.map stripAllCacheControl) = (blocksIn value).map stripAllCacheControl := by
  cases value with
  | none => rfl
  | some value =>
    cases value with
    | array items => simp only [Option.map_some, stripAllCacheControl, blocksIn, strip_items]
    | _ => simp [stripAllCacheControl, blocksIn]

theorem contentBlocks_strip (m : Value) :
    contentBlocks (stripAllCacheControl m) = (contentBlocks m).map stripAllCacheControl := by
  rw [contentBlocks, get?_strip "content" m (by decide), blocksIn_strip]
  rfl

theorem unmarked_strip {key : String} (hkey : key ≠ cacheControlKey) (b : Value) :
    ∀ block ∈ slotBlocks key ((stripAllCacheControl b).get? key), isMarked block = false := by
  intro block hmem
  rw [get?_strip key b hkey] at hmem
  unfold slotBlocks messageBlocks at hmem
  rw [blocksIn_strip] at hmem
  split at hmem
  · obtain ⟨m, hm, hblock⟩ := List.mem_flatMap.mp hmem
    obtain ⟨m, _, rfl⟩ := List.mem_map.mp hm
    rw [contentBlocks_strip] at hblock
    obtain ⟨v, _, rfl⟩ := List.mem_map.mp hblock
    exact isMarked_strip v
  · obtain ⟨v, _, rfl⟩ := List.mem_map.mp hmem
    exact isMarked_strip v

theorem markerCount_strip (b : Value) : markerCount (stripAllCacheControl b) = 0 := by
  have hzero : ∀ key ∈ taggedKeys, markedIn key (stripAllCacheControl b) = 0 := by
    intro key hkey
    have hne : key ≠ cacheControlKey := by
      rintro rfl
      exact absurd hkey (by decide)
    refine List.countP_eq_zero.mpr fun block hmem => ?_
    rw [unmarked_strip hne b block hmem]
    decide
  unfold markerCount
  rw [hzero "tools" (by decide), hzero "system" (by decide), hzero "messages" (by decide)]

theorem isObject_strip (v : Value) : (stripAllCacheControl v).isObject = v.isObject := by
  cases v <;> simp [stripAllCacheControl, Value.isObject]

theorem bears_strip {block : Value} (h : Bears block) : Bears (stripAllCacheControl block) := by
  unfold Bears
  rw [strAt?_strip "type" block (by decide), strAt?_strip "text" block (by decide)]
  exact h

theorem toolObjects_strip (h : ToolObjects (b.get? "tools")) :
    ToolObjects ((stripAllCacheControl b).get? "tools") := by
  intro tool hmem
  rw [get?_strip "tools" b (by decide), blocksIn_strip] at hmem
  obtain ⟨v, hv, rfl⟩ := List.mem_map.mp hmem
  rw [isObject_strip]
  exact h v hv

theorem textSystem_strip (h : TextSystem (b.get? "system")) :
    TextSystem ((stripAllCacheControl b).get? "system") := by
  intro value hvalue
  rw [get?_strip "system" b (by decide)] at hvalue
  obtain ⟨own, hown, rfl⟩ := Option.map_eq_some_iff.mp hvalue
  rcases h own hown with ⟨text, rfl, hne⟩ | ⟨blocks, rfl, hblocks⟩
  · exact Or.inl ⟨text, by simp [stripAllCacheControl], hne⟩
  · refine Or.inr ⟨blocks.map stripAllCacheControl, by simp [stripAllCacheControl, strip_items], ?_⟩
    intro block hmem
    obtain ⟨v, hv, rfl⟩ := List.mem_map.mp hmem
    obtain ⟨hobject, hbears⟩ := hblocks v hv
    exact ⟨(isObject_strip v).trans hobject, bears_strip hbears⟩

/-- Apart from the markers of whole blocks the body has no `cache_control`. -/
def Clean (b : Value) : Prop := countCacheControl (plainBody b) = 0

instance (b : Value) : Decidable (Clean b) := inferInstanceAs (Decidable (_ = 0))

/-- Breakpoints are placed at all. -/
def placing (cache : IrCache) (estimated : ℕ) : Bool :=
  cache.enabled && cache.retention != some "none" && !belowFloor cache estimated

/-- The same request, without caching. -/
def uncached (p : EncodedParts) : EncodedParts := { p with sampling := { p.sampling with cache := {} } }

/-- The report ends with a dropped cache. -/
def CacheDropped (report report' : LossReport) : Prop :=
  ∃ detail, report' = record report "sampling.cache" .drop detail

/-- What placed breakpoints do to a body. -/
structure Cached (b b' : Value) (report report' : LossReport) : Prop where
  same : plainBody b' = plainBody b
  bounded : countCacheControl b' ≤ preferredBlocks
  markers : markerCount b' ≤ preferredBlocks
  seen : 0 < markerCount b' ∨ CacheDropped report report'
  system : Placed "system" b'
  messages : Placed "messages" b'

theorem applyCache_cached (cache : IrCache) (estimated : ℕ) (report : LossReport)
    (h : placing cache estimated = true) (htools : ToolObjects (b.get? "tools"))
    (hsystem : TextSystem (b.get? "system")) (hclean : Clean b) :
    Cached b (applyCacheBreakpoints b cache estimated report).1 report
      (applyCacheBreakpoints b cache estimated report).2 := by
  obtain ⟨henabled, hfloor⟩ := Bool.and_eq_true_iff.mp h
  obtain ⟨henabled, hretention⟩ := Bool.and_eq_true_iff.mp henabled
  have hgate : (!cache.enabled || cache.retention == some "none") = false := by
    rw [henabled]
    simpa using hretention
  have hfloor : belowFloor cache estimated = false := by simpa using hfloor
  obtain ⟨hpoints, hseen⟩ := breakpoints_preferred (ttlOf cache.retention)
    (toolObjects_strip htools) (textSystem_strip hsystem)
  have hcount : countCacheControl (applyPreferredCacheBreakpoints (stripAllCacheControl b)
      (ttlOf cache.retention)) ≤ preferredBlocks := by
    have hbound := hpoints.count
    rw [count_strip] at hbound
    exact hbound
  have hplaced : ∀ key, key ≠ "tools" → key ≠ cacheControlKey → Placed key
      (applyPreferredCacheBreakpoints (stripAllCacheControl b) (ttlOf cache.retention)) := by
    intro key htool hkey
    refine hpoints.placed key htool fun block hmem hmarked => ?_
    rw [unmarked_strip hkey b block hmem] at hmarked
    cases hmarked
  have hsame : plainBody (applyPreferredCacheBreakpoints (stripAllCacheControl b)
      (ttlOf cache.retention)) = plainBody b :=
    hpoints.plain.trans ((plainBody_strip b).trans (strip_eq_self _ hclean))
  have hmarkers := hpoints.marked
  rw [markerCount_strip] at hmarkers
  unfold applyCacheBreakpoints enforceCacheControlLimit
  rw [hgate, hfloor, if_neg (by decide), if_neg (by decide)]
  dsimp only
  rw [if_pos hcount]
  split
  · exact ⟨hsame, hcount, hmarkers, Or.inr ⟨_, rfl⟩, hplaced _ (by decide) (by decide),
      hplaced _ (by decide) (by decide)⟩
  · rename_i hnonzero
    refine ⟨hsame, hcount, hmarkers, Or.inl (hseen.resolve_left fun heq => hnonzero ?_),
      hplaced _ (by decide) (by decide), hplaced _ (by decide) (by decide)⟩
    rw [heq]
    exact count_strip b

theorem applyCache_unplaced (cache : IrCache) (estimated : ℕ) (report : LossReport)
    (h : placing cache estimated = false) :
    (applyCacheBreakpoints b cache estimated report).1 = b ∧
      (cache.enabled = true → cache.retention ≠ some "none" →
        CacheDropped report (applyCacheBreakpoints b cache estimated report).2) := by
  unfold applyCacheBreakpoints
  split
  · rename_i hgate
    refine ⟨rfl, fun henabled hretention => ?_⟩
    rw [henabled] at hgate
    exact absurd (by simpa using hgate) hretention
  · rename_i hgate
    have hfloor : belowFloor cache estimated = true := by
      by_contra hfloor
      have hopen : cache.enabled = true ∧ cache.retention ≠ some "none" := by simpa using hgate
      simp [placing, hopen.1, hopen.2, hfloor] at h
    rw [if_pos hfloor]
    exact ⟨rfl, fun _ _ => ⟨_, rfl⟩⟩

theorem get?_encodeSampling (decimal : ℚ → ℚ) (model : String) (s : IrSampling) (body : Value)
    {key : String} (h : key ∈ taggedKeys) :
    (encodeSampling decimal model s body).get? key = body.get? key := by
  have hplain : (plainSettings decimal s body).get? key = body.get? key := by
    rcases List.mem_cons.mp h with rfl | h
    · simp [plainSettings, encodeDisableParallelToolUse, encodeToolChoice, Value.get?_insertSome_of_ne]
    · rcases List.mem_cons.mp h with rfl | h
      · simp [plainSettings, encodeDisableParallelToolUse, encodeToolChoice, Value.get?_insertSome_of_ne]
      · obtain rfl := List.mem_singleton.mp h
        simp [plainSettings, encodeDisableParallelToolUse, encodeToolChoice, Value.get?_insertSome_of_ne]
  have hne : ∀ other, other ∉ taggedKeys → key ≠ other := by
    rintro other hother rfl
    exact hother h
  have hapart : ∀ key ∈ taggedKeys, key ∉ samplingKeys := by decide
  have hsampling := hapart key h
  have hthinking : (encodeThinking s (plainSettings decimal s body)).get? key =
      (plainSettings decimal s body).get? key := by
    unfold encodeThinking raisedMaxTokens
    split
    · exact Value.get?_insert_of_ne _ _ (hne _ (by decide))
    · split
      · exact Value.get?_insert_of_ne _ _ (hne _ (by decide))
      · split
        · rfl
        · dsimp only
          split
          · rw [Value.get?_insert_of_ne _ _ (hne _ (by decide)),
              Value.get?_insert_of_ne _ _ (hne _ (by decide))]
          · exact Value.get?_insert_of_ne _ _ (hne _ (by decide))
  rw [encodeSampling, get?_late_of_ne _ (hne _ (by decide)) (hne _ (by decide)) (hne _ (by decide)),
    get?_omitModel_of_ne _ _ (hne _ (by decide)),
    get?_omitSampling_of_ne _ hsampling (hne _ (by decide)), hthinking, hplain]

theorem get?_startBody (p : EncodedParts) : (startBody p).get? "system" = p.system ∧
    (startBody p).get? "tools" = if p.tools = [] then none else some (.array p.tools) := by
  unfold startBody
  constructor
  · rw [Value.get?_insertSome_of_ne _ _ (by decide), get?_insertSome_self _ _ rfl]
    cases p.system <;> rfl
  · rw [get?_insertSome_self _ _ (Value.isObject_insertSome _ _ _), Value.get?_insertSome_of_ne _ _ (by decide)]
    split <;> rfl

/-- Caching only adds markers on whole blocks, at most two, and at least one unless the
cache is reported as dropped. -/
theorem caching_adds_markers (decimal : ℚ → ℚ) (p : EncodedParts) (report : LossReport)
    (htools : ∀ tool ∈ p.tools, tool.isObject = true) (hsystem : TextSystem p.system)
    (b : Value) (r : LossReport) (h : encode decimal (uncached p) report = .ok (b, r))
    (hclean : Clean b) :
    ∃ b' r', encode decimal p report = .ok (b', r') ∧
      (placing p.sampling.cache p.estimated = true → Cached b b' report r') ∧
      (placing p.sampling.cache p.estimated = false → b' = b ∧
        (p.sampling.cache.enabled = true → p.sampling.cache.retention ≠ some "none" →
          CacheDropped report r')) := by
  have herror : (emptyError (uncached p)).or (settingError (uncached p).sampling) =
      (emptyError p).or (settingError p.sampling) := rfl
  have hbody : encodeSampling decimal (uncached p).model (uncached p).sampling (startBody (uncached p)) =
      encodeSampling decimal p.model p.sampling (startBody p) := rfl
  unfold encode at h ⊢
  rw [herror, hbody] at h
  cases hcase : (emptyError p).or (settingError p.sampling) with
  | some err =>
    rw [hcase] at h
    cases h
  | none =>
    rw [hcase] at h
    obtain ⟨rfl, -⟩ := Prod.mk.inj (Except.ok.inj h)
    have hobjects : ToolObjects ((encodeSampling decimal p.model p.sampling (startBody p)).get? "tools") := by
      rw [get?_encodeSampling _ _ _ _ (by decide), (get?_startBody p).2]
      split
      · intro tool hmem
        cases hmem
      · exact htools
    have hslot : TextSystem ((encodeSampling decimal p.model p.sampling (startBody p)).get? "system") := by
      rw [get?_encodeSampling _ _ _ _ (by decide), (get?_startBody p).1]
      exact hsystem
    exact ⟨_, _, rfl, fun hplacing => applyCache_cached _ _ _ hplacing hobjects hslot hclean,
      fun hunplaced => applyCache_unplaced _ _ _ hunplaced⟩

/-- A greeting behind a system text. -/
def greeting (retention : Option String) : EncodedParts where
  model := "claude"
  messages := [.object [("role", "user"), ("content", .array [textBlock "hello"])]]
  system := some "be brief"
  tools := []
  sampling := { cache := { enabled := true, retention := retention } }
  dropped := []
  estimated := 0

theorem caching_adds_markers_greeting : ∃ b b' r', encode id (greeting (some "1h")) [] = .ok (b', r') ∧
    Cached b b' [] r' := by
  obtain ⟨b', r', hencode, hcached, _⟩ := caching_adds_markers id (greeting (some "1h")) []
    (fun tool hmem => by cases hmem)
    (fun value hvalue => Or.inl ⟨"be brief", (Option.some.inj hvalue).symm, by decide⟩) _ _ rfl
    (by decide)
  exact ⟨_, b', r', hencode, hcached (by decide)⟩

/-- With retention `none` an enabled cache writes nothing and says nothing. -/
theorem no_retention_no_marker : ¬ ∀ (decimal : ℚ → ℚ) (p : EncodedParts) (report r' : LossReport)
    (b' : Value), p.sampling.cache.enabled = true → encode decimal p report = .ok (b', r') →
      0 < markerCount b' ∨ CacheDropped report r' := by
  intro hall
  rcases hall id (greeting (some "none")) [] [] _ rfl rfl with hmarked | ⟨detail, hdropped⟩
  · exact absurd hmarked (by decide)
  · cases hdropped

end Wiremux.MessagesMarkers
