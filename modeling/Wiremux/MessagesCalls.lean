import Wiremux.MessagesGrammar

set_option autoImplicit false

/-!
# Tool calls through the Messages encoder

`Accounted` is the ledger of a run: where each call of the input stands, and
that what was sent for it together with what is buffered is all of its
fragments. A call is held, open or closed; only a closed one can lose text.
-/
namespace Wiremux.MessagesCalls
open JsonValue StreamEvents StreamEventEncoding StreamEventFrames EmittingRuns EncoderState
open MessagesEncoder SerialBlocks MessagesFrames OrderedMap ToolRouting MessagesBlocks
open StreamEncoderPush SideChannels CallEvents MessagesGrammar

def Plain (frames : List RawSse) : Prop := toolUses frames = [] ∧ argDeltas frames = []

theorem Plain.nil : Plain [] := ⟨rfl, rfl⟩

theorem Plain.argsAt {fs : List RawSse} (h : Plain fs) (index : ℕ) : argsAt fs index = "" := by
  simp [MessagesFrames.argsAt, h.2]

theorem argDeltas_args (index : ℕ) (inputs : List String) :
    argDeltas (inputs.map (toolArgFrame index)) = inputs.map fun t => (index, t) := by
  induction inputs with
  | nil => rfl
  | cons t inputs ih =>
    have : argDeltas (toolArgFrame index t :: inputs.map (toolArgFrame index)) =
        (index, t) :: argDeltas (inputs.map (toolArgFrame index)) := rfl
    rw [List.map_cons, this, ih, List.map_cons]

theorem toolUses_args (index : ℕ) (inputs : List String) :
    toolUses (inputs.map (toolArgFrame index)) = [] := by
  refine List.filterMap_eq_nil_iff.mpr fun f hf => ?_
  obtain ⟨t, _, rfl⟩ := List.mem_map.mp hf
  rfl

theorem argsAt_args (index enc : ℕ) (inputs : List String) :
    argsAt (inputs.map (toolArgFrame enc)) index = if enc = index then joined inputs else "" := by
  unfold argsAt
  rw [argDeltas_args, List.filter_map]
  by_cases h : enc = index <;> simp [h, Function.comp_def]

theorem plain_stop (index : ℕ) : Plain [contentBlockStop index] := ⟨rfl, rfl⟩

variable (sj : SerdeJson)

def useOfHeld (h : HeldTool) : ToolUse := ⟨h.enc, h.id, h.name⟩

theorem toolUses_heldBlock (custom : ℕ → Option String) (h : HeldTool) :
    toolUses (heldBlock sj custom h) = [useOfHeld h] := by
  have hsplit : heldBlock sj custom h = [toolStartFrame h.enc h.id h.name] ++
      ((heldInput sj (custom h.enc) h.args).map (toolArgFrame h.enc) ++
        [contentBlockStop h.enc]) := rfl
  rw [hsplit, toolUses_append, toolUses_append, toolUses_args]
  rfl

theorem argDeltas_heldBlock (custom : ℕ → Option String) (h : HeldTool) :
    argDeltas (heldBlock sj custom h) =
      (heldInput sj (custom h.enc) h.args).map fun t => (h.enc, t) := by
  have hsplit : heldBlock sj custom h = [toolStartFrame h.enc h.id h.name] ++
      ((heldInput sj (custom h.enc) h.args).map (toolArgFrame h.enc) ++
        [contentBlockStop h.enc]) := rfl
  rw [hsplit, argDeltas_append, argDeltas_append, argDeltas_args]
  simp [argDeltas, argOf?, deltaStr?, toolStartFrame, contentBlockStart, contentBlockStop, named]

theorem argsAt_heldBlock (custom : ℕ → Option String) (h : HeldTool) (index : ℕ) :
    argsAt (heldBlock sj custom h) index =
      if h.enc = index then joined (heldInput sj (custom h.enc) h.args) else "" := by
  unfold argsAt
  rw [argDeltas_heldBlock, List.filter_map]
  by_cases hi : h.enc = index <;> simp [hi, Function.comp_def]

theorem toolUses_heldBlocks (custom : ℕ → Option String) (held : List HeldTool) :
    toolUses (held.flatMap (heldBlock sj custom)) = held.map useOfHeld := by
  induction held with
  | nil => rfl
  | cons h held ih => rw [List.flatMap_cons, toolUses_append, toolUses_heldBlock, ih]; rfl

theorem argsAt_heldBlocks_of_not_mem (custom : ℕ → Option String) {held : List HeldTool}
    {index : ℕ} (hno : ∀ h ∈ held, h.enc ≠ index) :
    argsAt (held.flatMap (heldBlock sj custom)) index = "" := by
  induction held with
  | nil => rfl
  | cons h held ih =>
    rw [List.flatMap_cons, argsAt_append, argsAt_heldBlock, if_neg (hno h (by simp)),
      ih fun x hx => hno x (by simp [hx])]
    rfl

theorem argsAt_heldBlocks (custom : ℕ → Option String) {held : List HeldTool}
    (hstrict : StrictBy HeldTool.enc held) {h : HeldTool} (hmem : h ∈ held) :
    argsAt (held.flatMap (heldBlock sj custom)) h.enc =
      joined (heldInput sj (custom h.enc) h.args) := by
  induction held with
  | nil => cases hmem
  | cons x held ih =>
    obtain ⟨hx, hrest⟩ := List.pairwise_cons.mp hstrict
    rw [List.flatMap_cons, argsAt_append, argsAt_heldBlock]
    rcases List.mem_cons.mp hmem with rfl | hmem
    · rw [if_pos rfl, argsAt_heldBlocks_of_not_mem sj custom fun y hy =>
        (Nat.ne_of_lt (hx y hy)).symm]
      simp
    · rw [if_neg (Nat.ne_of_lt (hx h hmem)), ih hrest hmem]
      simp

theorem argDeltas_heldBlocks (custom : ℕ → Option String) {held : List HeldTool}
    {p : ℕ × String} (hp : p ∈ argDeltas (held.flatMap (heldBlock sj custom))) :
    ∃ h ∈ held, h.enc = p.1 := by
  induction held with
  | nil => cases hp
  | cons x held ih =>
    rw [List.flatMap_cons, argDeltas_append, argDeltas_heldBlock, List.mem_append] at hp
    rcases hp with hp | hp
    · obtain ⟨t, _, rfl⟩ := List.mem_map.mp hp
      exact ⟨x, by simp, rfl⟩
    · obtain ⟨h, hh, heq⟩ := ih hp
      exact ⟨h, by simp [hh], heq⟩

/-- The input text of a call as its block carries it: the arguments as they
are, or the object that wraps a custom input. An empty custom input sends no
fragment: its object is the `{}` of the block's start. -/
def inputText (custom : Bool) (fragments : String) : String :=
  if custom then joined (customInput sj (some fragments)) else fragments

/-- Where a call stands, with its fragments so far. -/
inductive Stands (out : List RawSse) (s : StreamEncoder) (c : CallStart) (enc : ℕ)
    (fragments : String) : Prop
  | held (h : HeldTool) : s.heldTools[c.index]? = some h → h.enc = enc → argsAt out enc = "" →
      s.customArgs enc = (if c.custom then some fragments else none) →
      h.args = (if c.custom then "" else fragments) → Stands out s c enc fragments
  | opened : s.openBlock = some (enc, .tool) → s.heldTools[c.index]? = none →
      enc ∉ s.closedTools → s.customArgs enc = (if c.custom then some fragments else none) →
      argsAt out enc = (if c.custom then "" else fragments) → Stands out s c enc fragments
  | closed : enc ∈ s.closedTools → s.openBlock ≠ some (enc, .tool) →
      s.heldTools[c.index]? = none → argsAt out enc = inputText sj c.custom fragments →
      Stands out s c enc fragments

def useOf (s : StreamEncoder) (c : CallStart) : ToolUse :=
  ⟨(s.tools.last c.index).getD 0, c.id, c.name⟩

structure Accounted (before : List IrStreamEvent) (out : List RawSse) (s : StreamEncoder)
    (busy : Option ℕ) : Prop where
  order : toolUses out ++ (heldInOrder s).map useOfHeld = (startsOf before).map (useOf s)
  slot : ∀ c ∈ startsOf before, ∃ enc, s.tools.slots c.index = [enc] ∧
    s.tools.last c.index = some enc ∧ enc < s.nextBlock ∧
    Stands sj out s c enc (fragmentsAt c.index before)
  apart : ∀ c ∈ startsOf before, ∀ d ∈ startsOf before,
    s.tools.last c.index = s.tools.last d.index → c.index = d.index
  vacant : ∀ i, (∀ c ∈ startsOf before, c.index ≠ i) → s.heldTools[i]? = none
  unused : ∀ i, busy ≠ some i → (∀ c ∈ startsOf before, c.index ≠ i) →
    s.tools.slots i = [] ∧ s.tools.last i = none
  open_known : ∀ e, s.openBlock = some (e, .tool) →
    ∃ c ∈ startsOf before, s.tools.last c.index = some e
  custom_lt : ∀ e, s.customArgs e ≠ none → e < s.nextBlock
  closed_lt : ∀ e ∈ s.closedTools, e < s.nextBlock
  args_known : ∀ p ∈ argDeltas out, ∃ c ∈ startsOf before, s.tools.last c.index = some p.1

variable {sj} {before : List IrStreamEvent} {out : List RawSse} {s t : StreamEncoder}
  {busy : Option ℕ} {ms : List (Mark ℕ)} {fresh : Option (ℕ × ℕ)}

theorem Accounted.plain (h : Accounted sj before out s busy) {frames : List RawSse}
    (hplain : Plain frames) (hopen : t.openBlock = s.openBlock)
    (hheld : t.heldTools = s.heldTools) (hslots : t.tools.slots = s.tools.slots)
    (hlast : t.tools.last = s.tools.last) (hclosed : t.closedTools = s.closedTools)
    (hcustom : t.customArgs = s.customArgs) (hnext : s.nextBlock ≤ t.nextBlock) :
    Accounted sj before (out ++ frames) t busy := by
  have hargs : ∀ i, argsAt (out ++ frames) i = argsAt out i := by
    intro i
    rw [argsAt_append, hplain.argsAt, String.append_empty]
  exact
    { order := by
        have horder : heldInOrder t = heldInOrder s := by simp only [heldInOrder, hheld]
        have huse : useOf t = useOf s := by funext c; simp only [useOf, hlast]
        rw [toolUses_append, hplain.1, List.append_nil, horder, huse]
        exact h.order
      slot := fun c hc => by
        obtain ⟨enc, h1, h2, h3, hstands⟩ := h.slot c hc
        refine ⟨enc, by rw [hslots]; exact h1, by rw [hlast]; exact h2, by omega, ?_⟩
        cases hstands with
        | held x hx henc hargs' hbuf hheldArgs =>
          exact .held x (by rw [hheld]; exact hx) henc (by rw [hargs]; exact hargs')
            (by rw [hcustom]; exact hbuf) hheldArgs
        | opened ho hn hnc hbuf hargs' =>
          exact .opened (by rw [hopen]; exact ho) (by rw [hheld]; exact hn)
            (by rw [hclosed]; exact hnc) (by rw [hcustom]; exact hbuf)
            (by rw [hargs]; exact hargs')
        | closed hc' ho hn hargs' =>
          exact .closed (by rw [hclosed]; exact hc') (by rw [hopen]; exact ho)
            (by rw [hheld]; exact hn) (by rw [hargs]; exact hargs')
      apart := by rw [hlast]; exact h.apart
      vacant := by rw [hheld]; exact h.vacant
      unused := by rw [hslots, hlast]; exact h.unused
      open_known := by rw [hopen, hlast]; exact h.open_known
      custom_lt := fun e he => Nat.lt_of_lt_of_le (h.custom_lt e (by rwa [← hcustom])) hnext
      closed_lt := fun e he => Nat.lt_of_lt_of_le (h.closed_lt e (by rwa [← hclosed])) hnext
      args_known := fun p hp => by
        rw [argDeltas_append, hplain.2, List.append_nil] at hp
        rw [hlast]
        exact h.args_known p hp }

/-- An event that starts no call and adds no text leaves the ledger as it is. -/
theorem Accounted.skip (h : Accounted sj before out s busy) {ev : IrStreamEvent}
    (hquiet : isQuiet ev) : Accounted sj (before ++ [ev]) out s busy := by
  have hstarts := startsOf_quiet before hquiet
  exact
    { order := by rw [hstarts]; exact h.order
      slot := fun c hc => by
        rw [hstarts] at hc
        rw [fragmentsAt_quiet _ _ hquiet]
        exact h.slot c hc
      apart := by rw [hstarts]; exact h.apart
      vacant := by rw [hstarts]; exact h.vacant
      unused := by rw [hstarts]; exact h.unused
      open_known := by rw [hstarts]; exact h.open_known
      custom_lt := h.custom_lt
      closed_lt := h.closed_lt
      args_known := by rw [hstarts]; exact h.args_known }

theorem Accounted.held_known (h : Accounted sj before out s busy) {k : ℕ} {x : HeldTool}
    (hx : s.heldTools[k]? = some x) :
    ∃ c ∈ startsOf before, c.index = k ∧ s.tools.last k = some x.enc := by
  by_contra hno
  have hno' : ∀ c ∈ startsOf before, c.index ≠ k := by
    intro c hc heq
    obtain ⟨enc, _, hlast, _, hstands⟩ := h.slot c hc
    rw [heq] at hlast
    refine hno ⟨c, hc, heq, ?_⟩
    cases hstands with
    | held y hy henc =>
      rw [heq, hx] at hy
      obtain rfl : x = y := by simpa using hy
      rw [henc]
      exact hlast
    | opened _ hn =>
      rw [heq, hx] at hn
      cases hn
    | closed _ _ hn =>
      rw [heq, hx] at hn
      cases hn
  rw [h.vacant k hno'] at hx
  cases hx

theorem toolUses_openFrames (s : StreamEncoder) : toolUses (openFrames sj s) = [] := by
  unfold openFrames
  cases s.openBlock with
  | none => rfl
  | some b =>
    simp only [toolUses_append, toolUses_args]
    rfl

theorem argsAt_openFrames (s : StreamEncoder) (index : ℕ) :
    argsAt (openFrames sj s) index =
      if s.openBlock = some (index, .tool) then joined (customInput sj (s.customArgs index))
      else "" := by
  unfold openFrames
  cases hb : s.openBlock with
  | none => simp
  | some b =>
    obtain ⟨enc, kind⟩ := b
    simp only [argsAt_append, argsAt_args, (plain_stop enc).argsAt, String.append_empty,
      Option.some.injEq, Prod.mk.injEq]
    by_cases henc : enc = index
    · subst henc
      by_cases hkind : kind = .tool <;> simp [hkind]
    · simp [henc]

theorem argDeltas_openFrames {s : StreamEncoder} {p : ℕ × String}
    (hp : p ∈ argDeltas (openFrames sj s)) : s.openBlock = some (p.1, .tool) := by
  unfold openFrames at hp
  cases hb : s.openBlock with
  | none =>
    rw [hb] at hp
    cases hp
  | some b =>
    obtain ⟨enc, kind⟩ := b
    simp only [hb, argDeltas_append, (plain_stop enc).2, List.append_nil, argDeltas_args] at hp
    obtain ⟨t, ht, rfl⟩ := List.mem_map.mp hp
    split at ht
    · rename_i hkind
      rw [hkind]
    · cases ht

theorem joined_heldInput {custom : Bool} {fragments args : String}
    (hargs : args = if custom then "" else fragments) :
    joined (heldInput sj (if custom then some fragments else none) args) =
      inputText sj custom fragments := by
  subst hargs
  cases custom with
  | true =>
    unfold heldInput inputText
    simp only [if_true]
    split
    · rename_i hempty
      rw [List.isEmpty_iff.mp hempty]
      rfl
    · rfl
  | false =>
    have hnone : customInput sj none = [] := rfl
    simp only [heldInput, inputText, hnone, Bool.false_eq_true, if_false, List.isEmpty_nil,
      if_true]
    cases hf : fragments.isEmpty with
    | true =>
      obtain rfl : fragments = "" := by simpa using hf
      rfl
    | false => simp

theorem Accounted.close (h : Accounted sj before out s busy) (hs : Shaped ms s fresh) :
    Accounted sj before (out ++ (closeOpen sj s).1) (closeOpen sj s).2 busy := by
  rw [hs.closeOpen_eq sj]
  have hstrict : StrictBy HeldTool.enc (heldInOrder s) := strictBy_sortByEnc hs.apart
  have hnoHeld : ∀ c ∈ startsOf before, ∀ enc, s.tools.last c.index = some enc →
      s.heldTools[c.index]? = none → ∀ x ∈ heldInOrder s, x.enc ≠ enc := by
    intro c hc enc hlast hnone x hx heq
    obtain ⟨k, hk⟩ := mem_heldInOrder.mp hx
    obtain ⟨d, hd, hdk, hdl⟩ := h.held_known hk
    have hidx := h.apart c hc d hd (by rw [hlast, hdk, hdl, heq])
    rw [hidx, hdk, hk] at hnone
    cases hnone
  have hclosing : ∀ e ∈ closingEncs s, e < s.nextBlock := by
    intro e he
    rcases List.mem_append.mp he with he | he
    · obtain ⟨b, hb, rfl⟩ := List.mem_map.mp he
      refine hs.starts_lt b.1 ?_
      have hopen : s.openBlock = some b := by simpa using hb
      have := hs.serial.starts_eq
      rw [hopen] at this
      simp [this]
    · obtain ⟨x, hx, rfl⟩ := List.mem_map.mp he
      obtain ⟨k, hk⟩ := mem_heldInOrder.mp hx
      exact hs.held_lt k x hk
  have hargs : ∀ e, argsAt (out ++ (openFrames sj s ++
      (heldInOrder s).flatMap (heldBlock sj s.customArgs))) e =
      argsAt out e ++ (argsAt (openFrames sj s) e ++
        argsAt ((heldInOrder s).flatMap (heldBlock sj s.customArgs)) e) := by
    intro e
    rw [argsAt_append, argsAt_append]
  exact
    { order := by
        have hempty : heldInOrder (closedState s) = [] := rfl
        have huse : useOf (closedState s) = useOf s := rfl
        rw [hempty, huse, toolUses_append, toolUses_append, toolUses_openFrames,
          toolUses_heldBlocks]
        simpa using h.order
      slot := fun c hc => by
        obtain ⟨enc, hslots, hlast, hlt, hstands⟩ := h.slot c hc
        refine ⟨enc, hslots, hlast, hlt, ?_⟩
        cases hstands with
        | held x hx henc hnil hbuf hxargs =>
          subst henc
          have hmem := mem_heldInOrder.mpr ⟨c.index, hx⟩
          refine .closed ?_ (by simp [closedState]) (closed_heldTools s _) ?_
          · refine Finset.mem_union_right _ ?_
            simp only [closingEncs, List.mem_toFinset, List.mem_append, List.mem_map]
            exact Or.inr ⟨x, hmem, rfl⟩
          · have hopen : s.openBlock ≠ some (x.enc, .tool) := fun ho =>
              Nat.lt_irrefl _ (hs.open_lt_held ho hmem)
            rw [hargs, hnil, argsAt_openFrames, if_neg hopen,
              argsAt_heldBlocks sj _ hstrict hmem, hbuf,
              joined_heldInput hxargs]
            simp
        | opened ho hn hnc hbuf hsent =>
          refine .closed ?_ (by simp [closedState]) (closed_heldTools s _) ?_
          · refine Finset.mem_union_right _ ?_
            simp [closingEncs, ho]
          · rw [hargs, hsent, argsAt_openFrames, if_pos ho,
              argsAt_heldBlocks_of_not_mem sj _ (hnoHeld c hc enc hlast hn), hbuf]
            cases c.custom with
            | true => simp [inputText]
            | false => simp [inputText, customInput]
        | closed hcl ho hn hsent =>
          refine .closed (Finset.mem_union_left _ hcl) (by simp [closedState])
            (closed_heldTools s _) ?_
          rw [hargs, hsent, argsAt_openFrames, if_neg ho,
            argsAt_heldBlocks_of_not_mem sj _ (hnoHeld c hc enc hlast hn)]
          simp
      apart := h.apart
      vacant := fun i _ => closed_heldTools s i
      unused := h.unused
      open_known := fun e he => by cases he
      custom_lt := fun e he => by
        refine h.custom_lt e fun hnone => he ?_
        simp only [closedState, dropBuffers, hnone, ite_self]
      closed_lt := fun e he => by
        rcases Finset.mem_union.mp he with he | he
        · exact h.closed_lt e he
        · exact hclosing e (List.mem_toFinset.mp he)
      args_known := fun p hp => by
        rw [argDeltas_append, argDeltas_append, List.mem_append, List.mem_append] at hp
        rcases hp with hp | hp | hp
        · exact h.args_known p hp
        · exact h.open_known p.1 (argDeltas_openFrames hp)
        · obtain ⟨x, hx, hxp⟩ := argDeltas_heldBlocks sj _ hp
          obtain ⟨k, hk⟩ := mem_heldInOrder.mp hx
          obtain ⟨c, hc, rfl, hl⟩ := h.held_known hk
          exact ⟨c, hc, hxp ▸ hl⟩ }

theorem Accounted.otherBlock (h : Accounted sj before out s busy) (hopen : s.openBlock = none)
    {live : Option (ℕ × BlockKind)} (hlive : ∀ e, live ≠ some (e, .tool)) {next : ℕ}
    (hnext : s.nextBlock ≤ next) :
    Accounted sj before out { s with nextBlock := next, openBlock := live } busy where
  order := h.order
  slot := fun c hc => by
    obtain ⟨enc, h1, h2, h3, hstands⟩ := h.slot c hc
    refine ⟨enc, h1, h2, Nat.lt_of_lt_of_le h3 hnext, ?_⟩
    cases hstands with
    | held x hx henc hnil hbuf hxargs => exact .held x hx henc hnil hbuf hxargs
    | opened ho => rw [hopen] at ho; cases ho
    | closed hcl _ hn hsent => exact .closed hcl (hlive enc) hn hsent
  apart := h.apart
  vacant := h.vacant
  unused := h.unused
  open_known := fun e he => absurd he (hlive e)
  custom_lt := fun e he => Nat.lt_of_lt_of_le (h.custom_lt e he) hnext
  closed_lt := fun e he => Nat.lt_of_lt_of_le (h.closed_lt e he) hnext
  args_known := h.args_known

theorem Accounted.append_plain (h : Accounted sj before out s busy) {frames : List RawSse}
    (hplain : Plain frames) : Accounted sj before (out ++ frames) s busy :=
  h.plain hplain rfl rfl rfl rfl rfl rfl (Nat.le_refl _)

theorem plain_blockStart (index : ℕ) {kind : BlockKind} (hkind : kind = .text ∨ kind = .thinking) :
    Plain [contentBlockStart index (blockBody kind)] := by
  rcases hkind with rfl | rfl <;> exact ⟨rfl, rfl⟩

theorem ensureBlock_accounted {kind : BlockKind} (hkind : kind = .text ∨ kind = .thinking)
    (h : Accounted sj before out s busy) (hs : Shaped ms s none) (hroom : s.nextBlock < u32Max) :
    Accounted sj before (out ++ (ensureBlock sj kind s).1) (ensureBlock sj kind s).2 busy := by
  unfold ensureBlock
  by_cases hopens : s.opensKind kind = true
  · rw [if_pos hopens]
    simpa using h
  · have hclose := h.close hs
    rw [if_neg hopens]
    simp only [hs.closeOpen_snd sj] at hclose ⊢
    rw [← List.append_assoc]
    refine (hclose.append_plain (plain_blockStart _ hkind)).otherBlock rfl ?_ ?_
    · rintro e he
      rcases hkind with rfl | rfl <;> cases he
    · exact le_satAdd_one hroom

theorem blockDelta_accounted {kind : BlockKind} (hkind : kind = .text ∨ kind = .thinking)
    {body : Value} (hbody : ∀ index, Plain [contentBlockDelta index body])
    (h : Accounted sj before out s busy) (hs : Shaped ms s none) (hroom : s.nextBlock < u32Max) :
    Accounted sj before (out ++ (blockDelta sj kind body s).1) (blockDelta sj kind body s).2
      busy := by
  have hensured := ensureBlock_accounted hkind h hs hroom
  simp only [blockDelta]
  rw [← List.append_assoc]
  exact hensured.append_plain (hbody _)

theorem messagesImage_accounted (mediaType data : String) (h : Accounted sj before out s busy)
    (hs : Shaped ms s none) (hroom : s.nextBlock < u32Max) :
    Accounted sj before (out ++ (messagesImage sj mediaType data s).1)
      (messagesImage sj mediaType data s).2 busy := by
  have hclose := h.close hs
  simp only [messagesImage, hs.closeOpen_snd sj] at hclose ⊢
  rw [← List.append_assoc]
  have hplain : Plain [contentBlockStart (closedState s).nextBlock (imageBlock mediaType data),
      contentBlockStop (closedState s).nextBlock] := ⟨rfl, rfl⟩
  exact (hclose.append_plain hplain).otherBlock rfl (fun _ he => by cases he)
    (le_satAdd_one hroom)

theorem deferOr_accounted {e : IrStreamEvent}
    {emit : StreamEncoder → List RawSse × StreamEncoder}
    (hemit : Accounted sj before (out ++ (emit s).1) (emit s).2 busy)
    (h : Accounted sj before out s busy) :
    Accounted sj before (out ++ (deferOr e emit s).1) (deferOr e emit s).2 busy := by
  unfold deferOr
  split
  · exact h.plain Plain.nil rfl rfl rfl rfl rfl rfl (Nat.le_refl _)
  · exact hemit

/-- A call that has its slot and no block yet. -/
structure Reserved (before : List IrStreamEvent) (s : StreamEncoder) (c : CallStart) (enc : ℕ) :
    Prop where
  slots : s.tools.slots c.index = [enc]
  last : s.tools.last c.index = some enc
  lt : enc < s.nextBlock
  buffer : s.customArgs enc = if c.custom then some "" else none
  not_closed : enc ∉ s.closedTools
  held : s.heldTools[c.index]? = none
  other : ∀ d ∈ startsOf before, s.tools.last d.index ≠ some enc

theorem Accounted.reserve (h : Accounted sj before out s none) {c : CallStart}
    (hc : ∀ d ∈ startsOf before, d.index ≠ c.index) (hwire : s.wire ≠ .chatCompletions)
    (hroom : s.nextBlock < u32Max) :
    (allocTool c.index s).1 = s.nextBlock ∧
    Accounted sj before out (noteCustomSlot s.nextBlock c.custom (allocTool c.index s).2)
        (some c.index) ∧
      Reserved before (noteCustomSlot s.nextBlock c.custom (allocTool c.index s).2) c
        s.nextBlock := by
  have hslots := (h.unused c.index (by simp) hc).1
  have hvacant := h.vacant c.index hc
  have hnone : s.customArgs s.nextBlock = none := by
    by_contra hne
    exact Nat.lt_irrefl _ (h.custom_lt _ hne)
  have hlt : s.nextBlock < satAdd s.nextBlock 1 := by
    rw [satAdd_one_of_lt hroom]
    exact Nat.lt_succ_self _
  have hcustom : ∀ e, e ≠ s.nextBlock →
      (if c.custom then pushStr s.customArgs s.nextBlock "" else s.customArgs) e =
        s.customArgs e := by
    intro e he
    cases c.custom <;> simp [pushStr, he]
  rw [allocTool_block c.index hwire]
  simp only [noteCustomSlot_eq]
  refine ⟨trivial, ?_, ?_⟩
  · exact
      { order := by
          rw [show (startsOf before).map (useOf _) = (startsOf before).map (useOf s) from
            List.map_congr_left fun d hd => by
              simp only [useOf, assign_last_of_ne _ _ (hc d hd)]]
          exact h.order
        slot := fun d hd => by
          obtain ⟨enc, h1, h2, h3, hstands⟩ := h.slot d hd
          have hne : enc ≠ s.nextBlock := Nat.ne_of_lt h3
          refine ⟨enc, ?_, ?_, Nat.lt_trans h3 hlt, ?_⟩
          · rw [assign_slots_of_ne _ _ (hc d hd)]
            exact h1
          · rw [assign_last_of_ne _ _ (hc d hd)]
            exact h2
          · cases hstands with
            | held x hx henc hnil hbuf hxargs =>
              exact .held x hx henc hnil ((hcustom enc hne).trans hbuf) hxargs
            | opened ho hn hnc hbuf hsent =>
              exact .opened ho hn hnc ((hcustom enc hne).trans hbuf) hsent
            | closed hcl ho hn hsent => exact .closed hcl ho hn hsent
        apart := fun d hd d' hd' heq => by
          rw [assign_last_of_ne _ _ (hc d hd), assign_last_of_ne _ _ (hc d' hd')] at heq
          exact h.apart d hd d' hd' heq
        vacant := h.vacant
        unused := fun i hi hno => by
          have hne : i ≠ c.index := fun heq => hi (by rw [heq])
          rw [assign_slots_of_ne _ _ hne, assign_last_of_ne _ _ hne]
          exact h.unused i (by simp) hno
        open_known := fun e he => by
          obtain ⟨d, hd, hl⟩ := h.open_known e he
          refine ⟨d, hd, ?_⟩
          rw [assign_last_of_ne _ _ (hc d hd)]
          exact hl
        custom_lt := fun e he => by
          by_cases hne : e = s.nextBlock
          · rw [hne]
            exact hlt
          · exact Nat.lt_trans (h.custom_lt e (by rwa [← hcustom e hne])) hlt
        closed_lt := fun e he => Nat.lt_trans (h.closed_lt e he) hlt
        args_known := fun p hp => by
          obtain ⟨d, hd, hl⟩ := h.args_known p hp
          refine ⟨d, hd, ?_⟩
          rw [assign_last_of_ne _ _ (hc d hd)]
          exact hl }
  · exact
      { slots := assign_slots_of_nil _ hslots
        last := assign_last _ _ _
        lt := hlt
        buffer := by
          cases c.custom with
          | true => simp [pushStr, hnone]
          | false => exact hnone
        not_closed := fun hmem => Nat.lt_irrefl _ (h.closed_lt _ hmem)
        held := hvacant
        other := fun d hd heq => by
          rw [assign_last_of_ne _ _ (hc d hd)] at heq
          obtain ⟨enc, _, h2, h3, _⟩ := h.slot d hd
          rw [h2] at heq
          exact absurd (Option.some.inj heq) (Nat.ne_of_lt h3) }

theorem argsAt_unknown {index : ℕ} (h : ∀ p ∈ argDeltas out, p.1 ≠ index) :
    argsAt out index = "" := by
  have : (argDeltas out).filter (fun p => p.1 = index) = [] := by
    rw [List.filter_eq_nil_iff]
    intro p hp hi
    exact h p hp (by simpa using hi)
  simp [argsAt, this]

theorem Accounted.no_args {c : CallStart} {enc : ℕ} (h : Accounted sj before out s busy)
    (hr : Reserved before s c enc) : argsAt out enc = "" := by
  refine argsAt_unknown fun p hp heq => ?_
  obtain ⟨d, hd, hl⟩ := h.args_known p hp
  exact hr.other d hd (by rw [hl, heq])

theorem Accounted.gain {c : CallStart} {enc : ℕ} {ev : IrStreamEvent} {frames : List RawSse}
    (h : Accounted sj before out s (some c.index)) (hr : Reserved before s c enc)
    (hev : startOf? ev = some c) (hfresh : ∀ d ∈ startsOf before, d.index ≠ c.index)
    (hearly : fragmentsAt c.index before = "") (hframes : argDeltas frames = [])
    (htools : t.tools = s.tools) (hnext : t.nextBlock = s.nextBlock)
    (hclosed : t.closedTools = s.closedTools) (hcustom : t.customArgs = s.customArgs)
    (horder : toolUses frames ++ (heldInOrder t).map useOfHeld =
      (heldInOrder s).map useOfHeld ++ [⟨enc, c.id, c.name⟩])
    (hold : ∀ d ∈ startsOf before, ∀ e frags, e ≠ enc → Stands sj out s d e frags →
      Stands sj (out ++ frames) t d e frags)
    (hnew : argsAt (out ++ frames) enc = "" → Stands sj (out ++ frames) t c enc "")
    (hvacant : ∀ i, i ≠ c.index → s.heldTools[i]? = none → t.heldTools[i]? = none)
    (hopen : ∀ e, t.openBlock = some (e, .tool) → e = enc ∨ s.openBlock = some (e, .tool)) :
    Accounted sj (before ++ [ev]) (out ++ frames) t none := by
  have hstarts := startsOf_start before hev
  have hfrags : ∀ i, fragmentsAt i (before ++ [ev]) = fragmentsAt i before := fun i =>
    fragmentsAt_start i before hev
  have hmem : ∀ d ∈ startsOf (before ++ [ev]), d ∈ startsOf before ∨ d = c := by
    intro d hd
    rw [hstarts, List.mem_append, List.mem_singleton] at hd
    exact hd
  exact
    { order := by
        have huse : useOf t = useOf s := by funext d; simp only [useOf, htools]
        rw [hstarts, List.map_append, huse, ← h.order, toolUses_append, List.append_assoc, horder]
        simp [useOf, hr.last]
      slot := fun d hd => by
        rw [hfrags, htools, hnext]
        rcases hmem d hd with hd | rfl
        · obtain ⟨e, h1, h2, h3, hstands⟩ := h.slot d hd
          refine ⟨e, h1, h2, h3, hold d hd e _ ?_ hstands⟩
          rintro rfl
          exact hr.other d hd h2
        · rw [hearly]
          refine ⟨enc, hr.slots, hr.last, hr.lt, hnew ?_⟩
          rw [argsAt_append, h.no_args hr]
          simp [argsAt, hframes]
      apart := fun d hd d' hd' heq => by
        rw [htools] at heq
        rcases hmem d hd with hd | rfl <;> rcases hmem d' hd' with hd' | rfl
        · exact h.apart d hd d' hd' heq
        · exact absurd (heq.trans hr.last) (hr.other d hd)
        · exact absurd (heq.symm.trans hr.last) (hr.other d' hd')
        · rfl
      vacant := fun i hno => by
        refine hvacant i ?_ (h.vacant i fun d hd => hno d ?_)
        · intro heq
          exact hno c (by rw [hstarts]; simp) heq.symm
        · rw [hstarts]
          simp [hd]
      unused := fun i _ hno => by
        rw [htools]
        refine h.unused i ?_ fun d hd => hno d ?_
        · intro heq
          exact hno c (by rw [hstarts]; simp) (Option.some.inj heq)
        · rw [hstarts]
          simp [hd]
      open_known := fun e he => by
        rw [hstarts, htools]
        rcases hopen e he with rfl | he
        · exact ⟨c, by simp, hr.last⟩
        · obtain ⟨d, hd, hl⟩ := h.open_known e he
          exact ⟨d, by simp [hd], hl⟩
      custom_lt := by rw [hcustom, hnext]; exact h.custom_lt
      closed_lt := by rw [hclosed, hnext]; exact h.closed_lt
      args_known := fun p hp => by
        rw [argDeltas_append, hframes, List.append_nil] at hp
        obtain ⟨d, hd, hl⟩ := h.args_known p hp
        rw [hstarts, htools]
        exact ⟨d, by simp [hd], hl⟩ }

theorem heldInOrder_of_none (hnone : ∀ i : ℕ, s.heldTools[i]? = none) : heldInOrder s = [] := by
  refine List.eq_nil_iff_forall_not_mem.mpr fun h hh => ?_
  obtain ⟨k, hk⟩ := mem_heldInOrder.mp hh
  rw [hnone k] at hk
  cases hk

theorem argsAt_plain_append {frames : List RawSse} (h : argDeltas frames = []) (index : ℕ) :
    argsAt (out ++ frames) index = argsAt out index := by
  have : argsAt frames index = "" := by simp [argsAt, h]
  rw [argsAt_append, this, String.append_empty]

theorem Accounted.openTool {c : CallStart} {enc : ℕ} {ev : IrStreamEvent}
    (h : Accounted sj before out s (some c.index)) (hr : Reserved before s c enc)
    (hev : startOf? ev = some c) (hfresh : ∀ d ∈ startsOf before, d.index ≠ c.index)
    (hearly : fragmentsAt c.index before = "") (hs : Shaped ms s fresh)
    (hopen : s.openBlock = none) :
    Accounted sj (before ++ [ev]) (out ++ (openTool enc c.id c.name s).1)
      (openTool enc c.id c.name s).2 none := by
  have hnone := hs.none_held hopen
  have hplain : argDeltas [toolStartFrame enc c.id c.name] = [] := rfl
  refine h.gain hr hev hfresh hearly hplain rfl rfl rfl rfl ?_ ?_ ?_ ?_ ?_
  · have hempty := heldInOrder_of_none hnone
    rw [show heldInOrder (MessagesEncoder.openTool enc c.id c.name s).2 = heldInOrder s from rfl,
      hempty]
    rfl
  · intro d hd e frags hne hstands
    have hsame := @argsAt_plain_append out _ hplain e
    cases hstands with
    | held x hx => rw [hnone] at hx; cases hx
    | opened ho => rw [hopen] at ho; cases ho
    | closed hcl _ hn hsent =>
      refine .closed hcl ?_ hn (hsame.trans hsent)
      intro heq
      exact hne (congrArg Prod.fst (Option.some.inj heq)).symm
  · intro hsent
    refine .opened rfl hr.held hr.not_closed ?_ ?_
    · exact hr.buffer
    · exact hsent.trans (by cases c.custom <;> rfl)
  · intro i _ hi
    exact hi
  · intro e he
    exact Or.inl (congrArg Prod.fst (Option.some.inj he)).symm

theorem Accounted.hold {c : CallStart} {enc : ℕ} {ev : IrStreamEvent}
    (h : Accounted sj before out s (some c.index)) (hr : Reserved before s c enc)
    (hev : startOf? ev = some c) (hfresh : ∀ d ∈ startsOf before, d.index ≠ c.index)
    (hearly : fragmentsAt c.index before = "") (hs : Shaped ms s fresh)
    (happart : HeldApart (s.heldTools.insert c.index ⟨enc, c.id, c.name, ""⟩))
    (hgt : ∀ (k : ℕ) x, s.heldTools[k]? = some x → x.enc < enc) :
    Accounted sj (before ++ [ev]) out
      { s with heldTools := s.heldTools.insert c.index ⟨enc, c.id, c.name, ""⟩ } none := by
  have hother : ∀ i, i ≠ c.index →
      (s.heldTools.insert c.index ⟨enc, c.id, c.name, ""⟩)[i]? = s.heldTools[i]? := by
    intro i hi
    rw [getElem?_insert, if_neg fun heq => hi heq.symm]
  have hgain := @Accounted.gain _ _ _ _ { s with
      heldTools := s.heldTools.insert c.index ⟨enc, c.id, c.name, ""⟩ } _ _ _ [] h hr hev hfresh hearly rfl
    rfl rfl rfl rfl ?_ ?_ ?_ ?_ ?_
  · simpa using hgain
  · have horder := sortByEnc_insert_last hs.apart happart hr.held hgt
    change [] ++ (sortByEnc _).map useOfHeld = _
    rw [horder]
    simp [heldInOrder, useOfHeld]
  · intro d hd e frags hne hstands
    rw [List.append_nil]
    cases hstands with
    | held x hx henc hnil hbuf hxargs =>
      exact .held x (by rw [hother _ (hfresh d hd)]; exact hx) henc hnil hbuf hxargs
    | opened ho hn hnc hbuf hsent =>
      exact .opened ho (by rw [hother _ (hfresh d hd)]; exact hn) hnc hbuf hsent
    | closed hcl ho hn hsent =>
      exact .closed hcl ho (by rw [hother _ (hfresh d hd)]; exact hn) hsent
  · intro hsent
    refine .held ⟨enc, c.id, c.name, ""⟩ (by simp) rfl hsent hr.buffer ?_
    cases c.custom <;> rfl
  · intro i hi hi'
    rw [hother i hi]
    exact hi'
  · intro e he
    exact Or.inr he

theorem messagesToolStart_accounted {c : CallStart} {ev : IrStreamEvent}
    (h : Accounted sj before out s none) (hev : startOf? ev = some c)
    (hfresh : ∀ d ∈ startsOf before, d.index ≠ c.index)
    (hearly : fragmentsAt c.index before = "") (hs : Shaped ms s none)
    (hroom : s.nextBlock < u32Max) :
    Accounted sj (before ++ [ev])
      (out ++ (messagesToolStart sj c.custom c.id c.name c.index s).1)
      (messagesToolStart sj c.custom c.id c.name c.index s).2 none := by
  have hwire : s.wire ≠ .chatCompletions := by rw [hs.wire]; decide
  have hlast := (h.unused c.index (by simp) hfresh).2
  have hnone := h.vacant c.index hfresh
  have hsame : (openToolEnc s).any (fun enc => s.tools.last c.index = some enc) = false := by
    rw [hlast]
    cases openToolEnc s <;> simp
  obtain ⟨halloc, hacc, hres⟩ := h.reserve hfresh hwire hroom
  have hreserved := hs.reserve hroom c.index
    fun j e hk => known_assign hk
  have hnoted : Shaped ms (noteCustomSlot s.nextBlock c.custom (allocTool c.index s).2)
      (some (c.index, s.nextBlock)) := by
    rw [allocTool_block c.index hwire, noteCustomSlot_eq]
    exact hreserved.withCustomArgs _
  unfold messagesToolStart
  simp only [hsame, Bool.false_eq_true, false_and, if_false, hnone, halloc]
  split
  · rename_i hother
    have hblock : (allocTool c.index s).2.openBlock = s.openBlock := by
      rw [allocTool_block c.index hwire]
    rw [hblock] at hother
    obtain ⟨k, hk⟩ : ∃ k, s.openBlock = some (k, .tool) := by
      cases hb : s.openBlock with
      | none => simp [hb] at hother
      | some b =>
        obtain ⟨k, kind⟩ := b
        simp only [hb, Option.any_some, Bool.and_eq_true, decide_eq_true_eq] at hother
        exact ⟨k, by rw [hother.1]⟩
    have hopen : (noteCustomSlot s.nextBlock c.custom (allocTool c.index s).2).openBlock =
        some (k, .tool) := by
      rw [allocTool_block c.index hwire, noteCustomSlot_eq]
      exact hk
    rw [List.append_nil]
    refine hacc.hold hres hev hfresh hearly hnoted ?_ fun i x hx => ?_
    · exact (hnoted.hold hopen hres.held (x := ⟨s.nextBlock, c.id, c.name, ""⟩) rfl).apart
    · exact hnoted.fresh_held _ _ rfl i x hx
  · have hclose := hacc.close hnoted
    have hshape := hnoted.close sj
    have hsnd := hnoted.closeOpen_snd sj
    simp only at hclose ⊢
    rw [hsnd] at hclose hshape ⊢
    rw [← List.append_assoc]
    refine hclose.openTool ?_ hev hfresh hearly hshape rfl
    have hlt : ∀ e ∈ closingEncs (noteCustomSlot s.nextBlock c.custom (allocTool c.index s).2),
        e ≠ s.nextBlock := by
      intro e he
      rcases List.mem_append.mp he with he | he
      · obtain ⟨b, hb, rfl⟩ := List.mem_map.mp he
        refine Nat.ne_of_lt (hnoted.fresh_gt _ _ rfl b.1 ?_)
        have hb' := Option.mem_toList.mp hb
        have := hnoted.serial.starts_eq
        rw [hb'] at this
        simp [this]
      · obtain ⟨x, hx, rfl⟩ := List.mem_map.mp he
        obtain ⟨k, hk⟩ := mem_heldInOrder.mp hx
        exact Nat.ne_of_lt (hnoted.fresh_held _ _ rfl k x hk)
    exact
      { slots := hres.slots
        last := hres.last
        lt := hres.lt
        buffer := by
          have hnot : s.nextBlock ∉ (openToolEnc
              (noteCustomSlot s.nextBlock c.custom (allocTool c.index s).2)).toList ++
              (heldInOrder (noteCustomSlot s.nextBlock c.custom (allocTool c.index s).2)).map
                HeldTool.enc := by
            intro hmem
            refine hlt _ ?_ rfl
            rcases List.mem_append.mp hmem with hmem | hmem
            · refine List.mem_append_left _ ?_
              have := Option.mem_toList.mp hmem
              simp only [openToolEnc, Option.map_eq_some_iff, Option.filter_eq_some_iff] at this
              obtain ⟨b, ⟨hb, _⟩, hbe⟩ := this
              have hin : b.1 ∈ (noteCustomSlot s.nextBlock c.custom
                  (allocTool c.index s).2).openBlock.toList.map Prod.fst := by
                rw [hb]
                simp
              rwa [hbe] at hin
            · exact List.mem_append_right _ hmem
          simp only [closedState, dropBuffers, if_neg hnot]
          exact hres.buffer
        not_closed := fun hmem => by
          rcases Finset.mem_union.mp hmem with hmem | hmem
          · exact hres.not_closed hmem
          · exact hlt _ (List.mem_toFinset.mp hmem) rfl
        held := closed_heldTools _ _
        other := hres.other }

/-- The ledger takes a fragment of the call at `f.index`, whose new place in
the state is given; the other calls stand as they did. -/
theorem Accounted.extend {f : Fragment} {ev : IrStreamEvent} {frames : List RawSse}
    (h : Accounted sj before out s none) (hev : fragmentOf? ev = some f)
    {c : CallStart} (hc : c ∈ startsOf before) (hindex : c.index = f.index)
    (hinj : ∀ d ∈ startsOf before, d.index = c.index → d = c) {enc : ℕ}
    (hlast : s.tools.last c.index = some enc) (huses : toolUses frames = [])
    (hslots : t.tools.slots = s.tools.slots) (htlast : t.tools.last = s.tools.last)
    (hnext : t.nextBlock = s.nextBlock) (hclosed : t.closedTools = s.closedTools)
    (hopen : t.openBlock = s.openBlock)
    (hheld : (heldInOrder t).map useOfHeld = (heldInOrder s).map useOfHeld)
    (hheldOther : ∀ i, i ≠ c.index → t.heldTools[i]? = s.heldTools[i]?)
    (hcustomOther : ∀ e, e ≠ enc → t.customArgs e = s.customArgs e)
    (hargsOther : ∀ p ∈ argDeltas frames, p.1 = enc)
    (hstands : Stands sj out s c enc (fragmentsAt c.index before) →
      Stands sj (out ++ frames) t c enc (fragmentsAt c.index before ++ f.text)) :
    Accounted sj (before ++ [ev]) (out ++ frames) t none := by
  have hstart : startOf? ev = none := by
    cases ev <;> first | rfl | cases hev
  have hstarts : startsOf (before ++ [ev]) = startsOf before := by
    rw [startsOf_append, startsOf_single, hstart]
    simp
  have hargs : ∀ e, e ≠ enc → argsAt (out ++ frames) e = argsAt out e := by
    intro e he
    rw [argsAt_append, @argsAt_unknown frames _ fun p hp heq => he ?_, String.append_empty]
    rw [← heq, hargsOther p hp]
  have hlt : enc < s.nextBlock := by
    obtain ⟨e, _, h2, h3, _⟩ := h.slot c hc
    rw [hlast] at h2
    rwa [Option.some.inj h2]
  exact
    { order := by
        have huse : useOf t = useOf s := by funext d; simp only [useOf, htlast]
        rw [hstarts, toolUses_append, huses, List.append_nil, hheld, huse]
        exact h.order
      slot := fun d hd => by
        rw [hstarts] at hd
        obtain ⟨e, h1, h2, h3, hst⟩ := h.slot d hd
        refine ⟨e, by rw [hslots]; exact h1, by rw [htlast]; exact h2, by rw [hnext]; exact h3, ?_⟩
        rw [fragmentsAt_append, fragmentsAt_single _ hev]
        by_cases hdc : d.index = c.index
        · obtain rfl := hinj d hd hdc
          obtain rfl : enc = e := by
            rw [hlast] at h2
            exact Option.some.inj h2
          rw [if_pos hindex.symm]
          exact hstands hst
        · have hne : e ≠ enc := by
            rintro rfl
            exact hdc (h.apart d hd c hc (by rw [h2, hlast]))
          rw [if_neg (by rw [← hindex]; exact fun heq => hdc heq.symm), String.append_empty]
          cases hst with
          | held x hx henc hnil hbuf hxargs =>
            exact .held x (by rw [hheldOther _ hdc]; exact hx) henc ((hargs e hne).trans hnil)
              ((hcustomOther e hne).trans hbuf) hxargs
          | opened ho hn hnc hbuf hsent =>
            exact .opened (by rw [hopen]; exact ho) (by rw [hheldOther _ hdc]; exact hn)
              (by rw [hclosed]; exact hnc) ((hcustomOther e hne).trans hbuf)
              ((hargs e hne).trans hsent)
          | closed hcl ho hn hsent =>
            exact .closed (by rw [hclosed]; exact hcl) (by rw [hopen]; exact ho)
              (by rw [hheldOther _ hdc]; exact hn) ((hargs e hne).trans hsent)
      apart := by rw [hstarts, htlast]; exact h.apart
      vacant := fun i hno => by
        rw [hstarts] at hno
        have hi : i ≠ c.index := fun heq => hno c hc heq.symm
        rw [hheldOther i hi]
        exact h.vacant i hno
      unused := by rw [hstarts, hslots, htlast]; exact h.unused
      open_known := by rw [hstarts, hopen, htlast]; exact h.open_known
      custom_lt := fun e he => by
        rw [hnext]
        by_cases hne : e = enc
        · rw [hne]
          exact hlt
        · exact h.custom_lt e (by rwa [← hcustomOther e hne])
      closed_lt := by rw [hclosed, hnext]; exact h.closed_lt
      args_known := fun p hp => by
        rw [hstarts, htlast]
        rw [argDeltas_append, List.mem_append] at hp
        rcases hp with hp | hp
        · exact h.args_known p hp
        · exact ⟨c, hc, by rw [hargsOther p hp]; exact hlast⟩ }

theorem customInput_isSome (custom : Bool) (fragments : String) :
    (if custom then some fragments else (none : Option String)).isSome = custom := by
  cases custom <;> rfl

theorem messagesToolArg_accounted {f : Fragment} {ev : IrStreamEvent}
    (h : Accounted sj before out s none) (hev : fragmentOf? ev = some f)
    {c : CallStart} (hc : c ∈ startsOf before) (hindex : c.index = f.index)
    (hcustom : c.custom = f.custom) (hinj : ∀ d ∈ startsOf before, d.index = c.index → d = c)
    (hs : Shaped ms s fresh)
    (hland : f.text = "" ∨ ∀ e ∈ s.tools.last f.index, e ∉ s.closedTools) :
    Accounted sj (before ++ [ev]) (out ++ (messagesToolArg sj f.custom f.text f.index s).1)
      (messagesToolArg sj f.custom f.text f.index s).2 none := by
  obtain ⟨enc, hslots, hlast, hlt, hstands⟩ := h.slot c hc
  rw [← hindex, ← hcustom]
  rw [← hindex] at hland
  obtain ⟨tools, hroute, htslots, htlast, _⟩ := toolEnc_single hslots
  have hdrop : ∀ t : StreamEncoder, f.text = "" → fragmentsAt c.index before ++ f.text =
      fragmentsAt c.index before := by
    intro t ht
    rw [ht, String.append_empty]
  unfold messagesToolArg
  simp only [hroute]
  cases hstands with
  | held x hx henc hnil hbuf hxargs =>
    subst henc
    have hopen : s.openBlock ≠ some (x.enc, .tool) := fun ho =>
      Nat.lt_irrefl _ (hs.open_lt_held ho (mem_heldInOrder.mpr ⟨c.index, hx⟩))
    rw [if_neg fun hc => hopen hc.1, hx]
    simp only [hbuf, customInput_isSome, or_self]
    cases hcc : c.custom with
    | true =>
      simp only [if_true]
      refine h.extend hev hc hindex hinj hlast rfl htslots htlast rfl rfl rfl rfl (fun _ _ => rfl)
        (fun e he => ?_) (by simp [argDeltas]) fun _ => ?_
      · simp [pushStr, he]
      · refine .held x hx rfl (by simpa using hnil) ?_ ?_
        · simp [pushStr, hbuf, hcc]
        · rw [hxargs, hcc]
          rfl
    | false =>
      simp only [Bool.false_eq_true, if_false]
      refine h.extend hev hc hindex hinj hlast rfl htslots htlast rfl rfl rfl ?_ (fun i hi => ?_)
        (fun e he => rfl) (by simp [argDeltas]) fun _ => ?_
      · have horder := @sortByEnc_insert_present _ _ _ { x with args := x.args ++ f.text }
          hs.apart hx rfl
        change (sortByEnc _).map useOfHeld = _
        rw [horder, List.map_map]
        refine List.map_congr_left fun y hy => ?_
        simp only [Function.comp]
        split
        · rename_i heq
          have hstrict : StrictBy HeldTool.enc (heldInOrder s) := strictBy_sortByEnc hs.apart
          obtain rfl := hstrict.key_inj hy (mem_heldInOrder.mpr ⟨c.index, hx⟩) heq
          rfl
        · rfl
      · rw [getElem?_insert, if_neg fun heq => hi heq.symm]
      · refine .held { x with args := x.args ++ f.text } (by simp) rfl (by simpa using hnil) ?_ ?_
        · simpa [hcc] using hbuf
        · rw [hxargs, hcc]
          rfl
  | opened ho hn hnc hbuf hsent =>
    simp only [ho, hbuf, customInput_isSome, or_self, true_and]
    cases hcc : c.custom with
    | true =>
      simp only [if_true]
      refine h.extend hev hc hindex hinj hlast rfl htslots htlast rfl rfl ho.symm rfl
        (fun _ _ => rfl) (fun e he => ?_) (by simp [argDeltas]) fun _ => ?_
      · simp [pushStr, he]
      · refine .opened rfl hn hnc ?_ ?_
        · simp [pushStr, hbuf, hcc]
        · simpa [hcc] using hsent
    | false =>
      simp only [Bool.false_eq_true, if_false, hn, if_neg hnc]
      refine h.extend hev hc hindex hinj hlast rfl htslots htlast rfl rfl ho.symm rfl
        (fun _ _ => rfl) (fun e he => rfl) ?_ fun _ => ?_
      · intro p hp
        have hone : argDeltas [toolArgFrame enc f.text] = [(enc, f.text)] := rfl
        rw [hone, List.mem_singleton] at hp
        rw [hp]
      · refine .opened rfl hn hnc (by simpa [hcc] using hbuf) ?_
        rw [argsAt_append, hsent, hcc]
        simp only [Bool.false_eq_true, if_false]
        have : argsAt [toolArgFrame enc f.text] enc = f.text := by
          have := argsAt_args enc enc [f.text]
          simpa using this
        rw [this]
  | closed hcl ho hn hsent =>
    have htext : f.text = "" := by
      rcases hland with ht | hl
      · exact ht
      · exact absurd hcl (hl enc hlast)
    rw [if_neg fun hc => ho hc.1, hn]
    simp only [if_pos hcl]
    refine h.extend hev hc hindex hinj hlast rfl htslots htlast rfl rfl rfl rfl (fun _ _ => rfl)
      (fun e he => rfl) (by simp [argDeltas]) fun _ => ?_
    refine .closed hcl ho hn ?_
    rw [hdrop s htext, List.append_nil]
    exact hsent

theorem plain_delta_text (text : String) (index : ℕ) :
    Plain [contentBlockDelta index (textDeltaBody text)] := ⟨rfl, rfl⟩

theorem plain_delta_citation (citation : Value) (index : ℕ) :
    Plain [contentBlockDelta index (citationsDeltaBody citation)] := ⟨rfl, rfl⟩

theorem deferrable_accounted {ev : IrStreamEvent} (hev : isDeferrable ev = true)
    (h : Accounted sj before out s busy) (hs : Shaped ms s none) (hroom : s.nextBlock < u32Max) :
    ∃ frames t, messagesEvent sj false ev s = .ok (frames, t) ∧
      Accounted sj before (out ++ frames) t busy := by
  cases ev with
  | textDelta text =>
    exact ⟨_, _, rfl, deferOr_accounted
      (blockDelta_accounted (Or.inl rfl) (plain_delta_text text) h hs hroom) h⟩
  | audioTranscriptDelta text =>
    exact ⟨_, _, rfl, deferOr_accounted
      (blockDelta_accounted (Or.inl rfl) (plain_delta_text text) h hs hroom) h⟩
  | reasoningDelta text =>
    exact ⟨_, _, rfl, deferOr_accounted
      (blockDelta_accounted (Or.inr rfl) (fun _ => ⟨rfl, rfl⟩) h hs hroom) h⟩
  | reasoningSignature signature =>
    exact ⟨_, _, rfl, deferOr_accounted
      (blockDelta_accounted (Or.inr rfl) (fun _ => ⟨rfl, rfl⟩) h hs hroom) h⟩
  | annotationAdded ann =>
    exact ⟨_, _, rfl, deferOr_accounted
      (blockDelta_accounted (Or.inl rfl) (plain_delta_citation _) h hs hroom) h⟩
  | _ => cases hev

def Lands (s : StreamEncoder) (ev : IrStreamEvent) : Prop :=
  ∀ f ∈ fragmentOf? ev, f.text = "" ∨ ∀ e ∈ s.tools.last f.index, e ∉ s.closedTools

theorem messagesEvent_accounted {evs after : List IrStreamEvent} {ev : IrStreamEvent}
    (hwell : CallsWellFormed evs) (hevs : evs = before ++ ev :: after)
    (harm : hasMessagesArm (customToolAsFunction ev) = true)
    (h : Accounted sj before out s none) (hs : Shaped ms s none) (hroom : s.nextBlock < u32Max)
    (hland : Lands s ev) :
    ∃ frames t, messagesEvent sj (isCustomTool ev) (customToolAsFunction ev) s =
        .ok (frames, t) ∧ Accounted sj (before ++ [ev]) (out ++ frames) t none := by
  have started : ∀ c, startOf? ev = some c →
      Accounted sj (before ++ [ev])
        (out ++ (messagesToolStart sj c.custom c.id c.name c.index s).1)
        (messagesToolStart sj c.custom c.id c.name c.index s).2 none := fun c hc =>
    messagesToolStart_accounted h hc (hwell.fresh hevs hc) (hwell.no_early_fragment hevs hc) hs
      hroom
  have extended : ∀ f, fragmentOf? ev = some f →
      Accounted sj (before ++ [ev]) (out ++ (messagesToolArg sj f.custom f.text f.index s).1)
        (messagesToolArg sj f.custom f.text f.index s).2 none := by
    intro f hf
    obtain ⟨c, hc, hindex, hcustom⟩ := hwell.found hevs hf
    exact messagesToolArg_accounted h hf hc hindex hcustom
      (fun d hd heq => hwell.index_inj hevs hd hc heq) hs (hland f hf)
  -- an event that sends nothing about calls
  have quiet : ∀ t : StreamEncoder, startOf? ev = none → fragmentOf? ev = none →
      t.openBlock = s.openBlock → t.heldTools = s.heldTools → t.tools = s.tools →
      t.closedTools = s.closedTools → t.customArgs = s.customArgs → t.nextBlock = s.nextBlock →
      Accounted sj (before ++ [ev]) (out ++ []) t none := by
    intro t hstart hfrag hopen hheld htools hclosed hcustom hnext
    exact Accounted.plain (h.skip (isQuiet_of_none hstart hfrag)) Plain.nil hopen hheld
      (by rw [htools]) (by rw [htools]) hclosed hcustom (by rw [hnext])
  have deferred : isDeferrable ev = true → startOf? ev = none → fragmentOf? ev = none →
      ∃ frames t, messagesEvent sj false ev s = .ok (frames, t) ∧
        Accounted sj (before ++ [ev]) (out ++ frames) t none := by
    intro hdef hstart hfrag
    obtain ⟨frames, t, hok, hacc⟩ := deferrable_accounted hdef h hs hroom
    exact ⟨frames, t, hok, hacc.skip (isQuiet_of_none hstart hfrag)⟩
  cases ev with
  | textDelta text => exact deferred rfl rfl rfl
  | reasoningDelta text => exact deferred rfl rfl rfl
  | reasoningSignature signature => exact deferred rfl rfl rfl
  | audioTranscriptDelta text => exact deferred rfl rfl rfl
  | annotationAdded ann => exact deferred rfl rfl rfl
  | toolCallStart id name sig index => exact ⟨_, _, rfl, started _ rfl⟩
  | customToolCallStart id name index => exact ⟨_, _, rfl, started _ rfl⟩
  | toolCallArgDelta delta index => exact ⟨_, _, rfl, extended _ rfl⟩
  | customToolCallInputDelta delta index => exact ⟨_, _, rfl, extended _ rfl⟩
  | imageDelta mediaType data =>
    exact ⟨_, _, rfl, (messagesImage_accounted mediaType data h hs hroom).skip
      (isQuiet_of_none rfl rfl)⟩
  | finishReason reason vendor => exact ⟨_, _, rfl, quiet _ rfl rfl rfl rfl rfl rfl rfl rfl⟩
  | refusalDelta text => exact ⟨_, _, rfl, quiet _ rfl rfl rfl rfl rfl rfl rfl rfl⟩
  | usage u geo => exact ⟨_, _, rfl, quiet _ rfl rfl rfl rfl rfl rfl rfl rfl⟩
  | toolCallEnd => exact ⟨_, _, rfl, quiet _ rfl rfl rfl rfl rfl rfl rfl rfl⟩
  | audioDelta data => exact ⟨_, _, rfl, quiet _ rfl rfl rfl rfl rfl rfl rfl rfl⟩
  | logprobs content refusal => exact ⟨_, _, rfl, quiet _ rfl rfl rfl rfl rfl rfl rfl rfl⟩
  | created unix => exact ⟨_, _, rfl, quiet _ rfl rfl rfl rfl rfl rfl rfl rfl⟩
  | serviceTier tier => exact ⟨_, _, rfl, quiet _ rfl rfl rfl rfl rfl rfl rfl rfl⟩
  | metadata entries => exact ⟨_, _, rfl, quiet _ rfl rfl rfl rfl rfl rfl rfl rfl⟩
  | moderation input output => exact ⟨_, _, rfl, quiet _ rfl rfl rfl rfl rfl rfl rfl rfl⟩
  | diagnostics reason => exact ⟨_, _, rfl, quiet _ rfl rfl rfl rfl rfl rfl rfl rfl⟩
  | container value => exact ⟨_, _, rfl, quiet _ rfl rfl rfl rfl rfl rfl rfl rfl⟩
  | contextManagement value => exact ⟨_, _, rfl, quiet _ rfl rfl rfl rfl rfl rfl rfl rfl⟩
  | stopSequence text => exact ⟨_, _, rfl, quiet _ rfl rfl rfl rfl rfl rfl rfl rfl⟩
  | searchEntryPoint rendered => cases harm
  | protocol itemType payload => cases harm
  | unknown event raw => cases harm
  | done => cases harm

theorem plain_startMessages (s : StreamEncoder) : Plain (startMessages s).1 := by
  unfold startMessages
  cases s.started
  · exact ⟨rfl, rfl⟩
  · exact Plain.nil

theorem Accounted.start (h : Accounted sj before out s busy) :
    Accounted sj before (out ++ (startMessages s).1) (startMessages s).2 busy := by
  obtain ⟨m, heq⟩ := startMessages_fields s
  rw [heq]
  exact h.plain (plain_startMessages s) rfl rfl rfl rfl rfl rfl (Nat.le_refl _)

theorem Accounted.note (h : Accounted sj before out s busy) (ev : IrStreamEvent) :
    Accounted sj before out (noteMessagesEvent ev s) busy := by
  obtain ⟨tier, m, heq⟩ := noteMessagesEvent_fields ev s
  rw [heq]
  simpa using h.plain (t := { s with serviceTier := tier, messages := m }) Plain.nil rfl rfl rfl
    rfl rfl rfl (Nat.le_refl _)

theorem pushMessages_accounted {evs after : List IrStreamEvent} {ev : IrStreamEvent}
    (hwell : CallsWellFormed evs) (hevs : evs = before ++ ev :: after)
    (harm : hasMessagesArm (customToolAsFunction ev) = true)
    (h : Accounted sj before out s none) (hs : Shaped ms s none) (hroom : s.nextBlock < u32Max)
    (hland : Lands s ev) :
    ∃ frames t, pushMessages sj s ev = .ok (frames, t) ∧
      Accounted sj (before ++ [ev]) (out ++ frames) t none := by
  have hnoted := h.note (customToolAsFunction ev)
  have hshaped := hs.note (customToolAsFunction ev)
  obtain ⟨tier, m, heq⟩ := noteMessagesEvent_fields (customToolAsFunction ev) s
  unfold pushMessages
  simp only
  rw [heq] at hnoted hshaped ⊢
  split
  · rename_i hquiet
    simp only [Bool.and_eq_true, Bool.not_eq_true'] at hquiet
    refine ⟨[], _, rfl, ?_⟩
    rw [List.append_nil]
    have hside := hquiet.2
    refine hnoted.skip ?_
    cases ev <;> first | exact isQuiet_of_none rfl rfl | cases hside
  · obtain ⟨m', hopening⟩ := startMessages_fields { s with serviceTier := tier, messages := m }
    have hstart := hnoted.start
    have hsstart := hshaped.start
    obtain ⟨frames, t, hok, hacc⟩ := messagesEvent_accounted hwell hevs harm hstart hsstart
      (by rw [hopening]; exact hroom) (by rw [hopening]; exact hland)
    rw [hok]
    exact ⟨_, t, rfl, by rw [← List.append_assoc]; exact hacc⟩

theorem pushMessages_deferrable {ev : IrStreamEvent} (hev : isDeferrable ev = true)
    (hstarted : s.started = true) : pushMessages sj s ev = messagesEvent sj false ev s := by
  have hopening : startMessages s = ([], s) := by rw [startMessages, if_pos hstarted]
  have hmap : ∀ r : Except MapError (List RawSse × StreamEncoder),
      r.map (fun r => ([] ++ r.1, r.2)) = r := by
    intro r
    cases r <;> rfl
  have hplain : customToolAsFunction ev = ev ∧ isCustomTool ev = false ∧
      noteMessagesEvent ev s = s ∧ isMessagesSidecar ev = false := by
    cases ev <;> first | exact ⟨rfl, rfl, rfl, rfl⟩ | cases hev
  obtain ⟨hev', hcustom, hnote, hside⟩ := hplain
  simp only [pushMessages, hev', hcustom, hnote, hside, Bool.and_false, Bool.false_eq_true,
    if_false, hopening, hmap]

theorem pushDeferred_accounted {ev : IrStreamEvent} (hev : isDeferrable ev = true)
    (hstarted : s.started = true) (h : Accounted sj before out s busy) (hs : Shaped ms s none)
    (hroom : s.nextBlock < u32Max) :
    Accounted sj before (out ++ (pushDeferred sj ev s).1) (pushDeferred sj ev s).2 busy := by
  obtain ⟨frames, t, hok, hacc⟩ := deferrable_accounted hev h hs hroom
  unfold pushDeferred
  rw [pushMessages_deferrable hev hstarted, hok]
  exact hacc

theorem drainMessages_accounted (h : Accounted sj before out s none) (hs : Shaped ms s none)
    (hroom : s.nextBlock + s.deferred.length ≤ u32Max) :
    Accounted sj before (out ++ (drainMessages sj s).1) (drainMessages sj s).2 none ∧
      (∀ i : ℕ, (drainMessages sj s).2.heldTools[i]? = none) ∧
      (drainMessages sj s).2.openBlock = none ∧
      (drainMessages sj s).2.finished = s.finished := by
  obtain ⟨m, hopening⟩ := startMessages_fields s
  have hstart := h.start
  have hsstart := hs.start
  have hstarted : (startMessages s).2.started = true := by rw [hopening]
  have hclose := hstart.close hsstart
  have hsclose := hsstart.close sj
  have hsnd := hsstart.closeOpen_snd sj
  have hdeferred : (closeOpen sj (startMessages s).2).2.deferred = s.deferred := by
    rw [hsnd, hopening]
    rfl
  let sent := out ++ (startMessages s).1 ++ (closeOpen sj (startMessages s).2).1
  let Inv : List IrStreamEvent → List RawSse → StreamEncoder → Prop := fun rest late t =>
    Accounted sj before (sent ++ late) t none ∧ (∃ ms, Shaped ms t none) ∧ t.started = true ∧
      t.finished = s.finished ∧ (∀ ev ∈ rest, isDeferrable ev = true) ∧
      t.nextBlock + t.deferred.length + rest.length ≤ u32Max
  have hstep : ∀ ev rest late t, Inv (ev :: rest) late t →
      Inv rest (late ++ (pushDeferred sj ev t).1) (pushDeferred sj ev t).2 := by
    rintro ev rest late t ⟨hacc, ⟨ms', hshaped⟩, htstarted, htfinished, hall, hfit⟩
    simp only [List.length_cons] at hfit
    have hev := hall ev (by simp)
    obtain ⟨hnext, hnstarted, hnfinished, hgrow⟩ :=
      pushDeferred_shaped sj hev hshaped htstarted (by omega)
    refine ⟨?_, ⟨_, hnext⟩, hnstarted, hnfinished.trans htfinished,
      fun e he => hall e (by simp [he]), by omega⟩
    rw [← List.append_assoc]
    exact pushDeferred_accounted hev htstarted hacc hshaped (by omega)
  have hinit : Inv (closeOpen sj (startMessages s).2).2.deferred []
      { (closeOpen sj (startMessages s).2).2 with deferred := [] } := by
    refine ⟨hclose.plain Plain.nil rfl rfl rfl rfl rfl rfl (Nat.le_refl _), ⟨_, hsclose.congr rfl
      rfl rfl rfl rfl (fun _ _ hk => hk) (by simp)⟩, ?_, ?_, hsclose.deferred, ?_⟩
    · rw [hsnd]
      exact hstarted
    · rw [hsnd, hopening]
      rfl
    · rw [hdeferred, hsnd, hopening]
      simpa [closedState] using hroom
  obtain ⟨hlate, ⟨ms', hslate⟩, _, hfinished, _⟩ :=
    emitEach_invariant (pushDeferred sj) Inv hstep _ _ _ hinit
  have hlast := hlate.close hslate
  have heq := hslate.closeOpen_snd sj
  refine ⟨by simpa [drainMessages, sent] using hlast, ?_, ?_, ?_⟩
  · intro i
    simp only [drainMessages, heq]
    exact closed_heldTools _ i
  · simp only [drainMessages, heq]
    rfl
  · simp only [drainMessages, heq]
    exact hfinished

variable (sj) in
/-- What a client reads: the calls in the order they started, each whole, in
blocks of their own, and no argument text outside them. -/
structure Delivered (evs : List IrStreamEvent) (frames : List RawSse) : Prop where
  calls : (toolUses frames).map (fun u => (u.id, u.name, argsAt frames u.index)) =
    (startsOf evs).map fun c => (c.id, c.name, inputText sj c.custom (fragmentsAt c.index evs))
  blocks : ((toolUses frames).map ToolUse.index).Nodup
  placed : ∀ p ∈ argDeltas frames, ∃ u ∈ toolUses frames, u.index = p.1

theorem Delivered.append_plain {evs : List IrStreamEvent} {frames more : List RawSse}
    (h : Delivered sj evs frames) (hplain : Plain more) : Delivered sj evs (frames ++ more) where
  calls := by
    rw [toolUses_append, hplain.1, List.append_nil, ← h.calls]
    refine List.map_congr_left fun u _ => ?_
    rw [argsAt_append, hplain.argsAt, String.append_empty]
  blocks := by
    rw [toolUses_append, hplain.1, List.append_nil]
    exact h.blocks
  placed := by
    rw [argDeltas_append, hplain.2, List.append_nil, toolUses_append, hplain.1, List.append_nil]
    exact h.placed

theorem Delivered.skip {evs : List IrStreamEvent} {frames : List RawSse} {ev : IrStreamEvent}
    (h : Delivered sj evs frames) (hquiet : isQuiet ev) : Delivered sj (evs ++ [ev]) frames := by
  refine ⟨?_, h.blocks, h.placed⟩
  rw [startsOf_quiet evs hquiet, h.calls]
  exact List.map_congr_left fun c _ => by rw [fragmentsAt_quiet _ _ hquiet]

theorem Accounted.delivered (h : Accounted sj before out s none) (hopen : s.openBlock = none)
    (hheld : ∀ i : ℕ, s.heldTools[i]? = none)
    (hindexes : ((startsOf before).map CallStart.index).Nodup) : Delivered sj before out := by
  have horder := h.order
  rw [heldInOrder_of_none hheld, List.map_nil, List.append_nil] at horder
  have hslot : ∀ c ∈ startsOf before, ∃ enc, s.tools.last c.index = some enc ∧
      argsAt out enc = inputText sj c.custom (fragmentsAt c.index before) := by
    intro c hc
    obtain ⟨enc, _, hlast, _, hstands⟩ := h.slot c hc
    cases hstands with
    | held x hx => rw [hheld] at hx; cases hx
    | opened ho => rw [hopen] at ho; cases ho
    | closed _ _ _ hsent => exact ⟨enc, hlast, hsent⟩
  refine ⟨?_, ?_, ?_⟩
  · rw [horder, List.map_map]
    refine List.map_congr_left fun c hc => ?_
    obtain ⟨enc, hlast, hsent⟩ := hslot c hc
    simp only [Function.comp, useOf, hlast, Option.getD_some, hsent]
  · rw [horder, List.map_map]
    refine List.Nodup.map_on ?_ (List.Nodup.of_map _ hindexes)
    intro c hc d hd heq
    obtain ⟨e, he, _⟩ := hslot c hc
    obtain ⟨e', he', _⟩ := hslot d hd
    simp only [Function.comp, useOf, he, he', Option.getD_some] at heq
    refine List.inj_on_of_nodup_map hindexes hc hd (h.apart c hc d hd ?_)
    rw [he, he', heq]
  · intro p hp
    obtain ⟨c, hc, hlast⟩ := h.args_known p hp
    refine ⟨useOf s c, ?_, ?_⟩
    · rw [horder]
      exact List.mem_map_of_mem hc
    · simp only [useOf, hlast, Option.getD_some]

theorem finishMessages_delivered (h : Accounted sj before out s none) (hs : Shaped ms s none)
    (hroom : s.nextBlock + s.deferred.length ≤ u32Max)
    (hindexes : ((startsOf before).map CallStart.index).Nodup) :
    Delivered sj before (out ++ (finishMessages sj s).1) ∧
      (finishMessages sj s).2.finished = s.finished := by
  obtain ⟨hacc, hheld, hopen, hfinished⟩ := drainMessages_accounted h hs hroom
  have hdelivered := hacc.delivered hopen hheld hindexes
  have hplain : Plain [messagesDeltaFrame (drainMessages sj s).2, messageStop] := ⟨rfl, rfl⟩
  refine ⟨?_, hfinished⟩
  simp only [finishMessages]
  rw [← List.append_assoc]
  exact hdelivered.append_plain hplain

/-- Where a step of the Messages encoder keeps every call whole: after the end
nothing of a call comes; before it, no text comes for a call whose block is
closed, and the block indexes have not run out. -/
def MessagesCallSafe (s : StreamEncoder) (ev : IrStreamEvent) : Prop :=
  (s.finished = true → startOf? ev = none ∧ ∀ f ∈ fragmentOf? ev, f.text = "") ∧
    (s.finished = false → Lands s ev ∧ s.nextBlock + s.deferred.length < u32Max)

instance (s : StreamEncoder) (ev : IrStreamEvent) : Decidable (MessagesCallSafe s ev) :=
  inferInstanceAs (Decidable ((_ → _ ∧ ∀ f ∈ fragmentOf? ev, _) ∧
    (_ → (∀ f ∈ fragmentOf? ev, _ ∨ ∀ e ∈ s.tools.last f.index, _) ∧ _)))

variable (sj) in
/-- The ledger of a stream that may have ended. -/
structure Carried (before : List IrStreamEvent) (out : List RawSse) (s : StreamEncoder) :
    Prop where
  running : s.finished = false → Accounted sj before out s none ∧ (∃ ms, Shaped ms s none) ∧
    s.nextBlock + s.deferred.length ≤ u32Max
  ended : s.finished = true → Delivered sj before out

theorem finish_carried (h : Carried sj before out s)
    (hindexes : ((startsOf before).map CallStart.index).Nodup) :
    Carried sj before (out ++ (finish sj s).1) (finish sj s).2 ∧
      (finish sj s).2.finished = true := by
  unfold finish
  cases hfinished : s.finished with
  | true =>
    simp only [if_true]
    exact ⟨by simpa using h, hfinished⟩
  | false =>
    obtain ⟨hacc, ⟨ms, hs⟩, hroom⟩ := h.running hfinished
    have hwire : s.wire = .messages := hs.wire
    have hacc' : Accounted sj before out { s with finished := true } none := by
      simpa using hacc.plain (t := { s with finished := true }) Plain.nil rfl rfl rfl rfl rfl rfl
        (Nat.le_refl _)
    have hs' : Shaped ms { s with finished := true } none :=
      hs.congr rfl rfl rfl rfl rfl (fun _ _ hk => hk) hs.deferred
    obtain ⟨hdelivered, hdone⟩ := finishMessages_delivered hacc' hs' hroom hindexes
    simp only [Bool.false_eq_true, if_false, hwire] at hdelivered hdone ⊢
    exact ⟨⟨fun hf => absurd (hdone.symm.trans hf) (by decide), fun _ => hdelivered⟩, hdone⟩

theorem push_carried {evs after : List IrStreamEvent} {ev : IrStreamEvent}
    (hwell : CallsWellFormed evs) (hevs : evs = before ++ ev :: after)
    (h : Carried sj before out s) (hplain : copiedVerbatim sj .messages ev = false)
    (hsafe : MessagesCallSafe s ev) :
    ∃ frames t, push sj s ev = .ok (frames, t) ∧
      Carried sj (before ++ [ev]) (out ++ frames) t := by
  cases hfinished : s.finished with
  | true =>
    have hquiet : isQuiet ev := hsafe.1 hfinished
    refine ⟨_, _, push_finished hfinished, fun hf => ?_, fun _ => ?_⟩
    · rw [hfinished] at hf
      cases hf
    · simpa using (h.ended hfinished).skip hquiet
  | false =>
    obtain ⟨hacc, ⟨ms, hs⟩, hroom⟩ := h.running hfinished
    obtain ⟨hland, hfit⟩ := hsafe.2 hfinished
    have hwire : s.wire = .messages := hs.wire
    have skip : startOf? ev = none → fragmentOf? ev = none →
        Accounted sj (before ++ [ev]) out s none := fun hstart hfrag =>
      hacc.skip (isQuiet_of_none hstart hfrag)
    cases push_cases hfinished (by rw [hwire]; exact hplain) with
    | @side itemType payload r hev hpush heffect =>
      subst hev
      have hskip := skip rfl rfl
      rw [hpush]
      cases heffect with
      | quiet hside =>
        obtain ⟨c, m, r, g, p, rfl, _⟩ := hside
        refine ⟨_, _, rfl, fun _ => ⟨?_, ⟨ms, ?_⟩, hroom⟩, fun hf => ?_⟩
        · exact hskip.plain Plain.nil rfl rfl rfl rfl rfl rfl (Nat.le_refl _)
        · exact hs.congr rfl rfl rfl rfl rfl (fun _ _ hk => hk) hs.deferred
        · rw [hfinished] at hf
          cases hf
      | citation _ hobj htype =>
        obtain ⟨hdelta, hkept⟩ :=
          blockDelta_shaped sj .text (citationsDeltaBody payload) hs (by omega)
        refine ⟨(blockDelta sj .text (citationsDeltaBody payload) s).1,
          (blockDelta sj .text (citationsDeltaBody payload) s).2, rfl,
          fun _ => ⟨?_, ⟨_, hdelta⟩, ?_⟩, fun hf => ?_⟩
        · exact blockDelta_accounted (Or.inl rfl) (plain_delta_citation payload) hskip hs (by omega)
        · have := hkept.room
          omega
        · rw [hkept.finished, hfinished] at hf
          cases hf
      | reasoning hother => rw [hwire] at hother; cases hother
      | codePart hother => rw [hwire] at hother; cases hother
      | redacted blob hother => rw [hwire] at hother; cases hother
    | done hev hpush =>
      subst hev
      have hcarried : Carried sj (before ++ [.done]) out s :=
        ⟨fun _ => ⟨skip rfl rfl, ⟨ms, hs⟩, hroom⟩, fun hf => by rw [hfinished] at hf; cases hf⟩
      have hindexes : ((startsOf (before ++ [.done])).map CallStart.index).Nodup :=
        @CallsOrdered.indexes_before _ _ after hwell.toCallsOrdered (by simp [hevs])
      rw [hpush]
      exact ⟨_, _, rfl, (finish_carried hcarried hindexes).1⟩
    | skipped hskip hpush =>
      obtain ⟨hstart, hfrag⟩ := skipped_noCall hskip
      rw [hpush]
      refine ⟨_, _, rfl, fun _ => ⟨by simpa using skip hstart hfrag, ⟨ms, hs⟩, hroom⟩, fun hf => ?_⟩
      rw [hfinished] at hf
      cases hf
    | wired hwired hpush =>
      rw [hwire] at hwired
      have harm := hasMessagesArm_of_wired hwired
      have hslot : ∀ index ∈ fragmentIndex? ev, (s.tools.last index).isSome = true := by
        intro index hindex
        obtain ⟨f, hf, rfl⟩ := Option.map_eq_some_iff.mp hindex
        obtain ⟨c, hc, hci, _⟩ := hwell.found hevs hf
        obtain ⟨enc, _, hlast, _⟩ := hacc.slot c hc
        rw [← hci, hlast]
        rfl
      obtain ⟨frames, t, hok, hnext⟩ :=
        pushMessages_accounted hwell hevs harm hacc hs (by omega) hland
      obtain ⟨body, t', hok', hs', hfin, hgrow, _⟩ :=
        pushMessages_shaped sj hs harm (by omega) hslot
      rw [hok] at hok'
      obtain ⟨_, rfl⟩ := Prod.mk.inj (Except.ok.inj hok')
      refine ⟨frames, t, by rw [hpush]; simpa only [pushWire, hwire] using hok,
        fun _ => ⟨hnext, ⟨_, hs'⟩, by omega⟩, fun hf => ?_⟩
      rw [hfin, hfinished] at hf
      cases hf

theorem new_carried (model : String) : Carried sj [] [] (StreamEncoder.new .messages model) where
  running := fun _ => by
    refine ⟨?_, ⟨_, ((new_streaming model).running rfl).1.shaped⟩, Nat.zero_le _⟩
    exact
      { order := rfl
        slot := fun c hc => by cases hc
        apart := fun c hc => by cases hc
        vacant := fun i _ => Std.TreeMap.getElem?_emptyc
        unused := fun i _ _ => ⟨rfl, rfl⟩
        open_known := fun e he => by cases he
        custom_lt := fun e he => absurd rfl he
        closed_lt := fun e he => by cases he
        args_known := fun p hp => by cases hp }
  ended := fun hf => by cases hf

variable (sj) in
/-- Tool calls survive the Messages encoder. -/
theorem messages_calls_delivered (model : String) (evs : List IrStreamEvent)
    (hwell : CallsWellFormed evs)
    (hplain : ∀ ev ∈ evs, copiedVerbatim sj .messages ev = false)
    (hsafe : StepsMeet (push sj) MessagesCallSafe (StreamEncoder.new .messages model) evs) :
    ∃ frames, encodeStream sj .messages model evs = .ok frames ∧ Delivered sj evs frames := by
  obtain ⟨out, t, hrun, hcarried⟩ := runAll_invariant (Carried sj) hsafe (new_carried model)
    fun before ev after out t hevs hcarried hstep =>
      push_carried hwell hevs hcarried (hplain ev (by simp [hevs])) hstep
  obtain ⟨hended, hfinished⟩ := finish_carried hcarried hwell.indexes
  exact ⟨out ++ (finish sj t).1, by simp only [encodeStream, hrun, Except.map],
    hended.ended hfinished⟩

/-- Two interleaved calls, one of them custom, with text and an image behind them. -/
theorem messages_calls_delivered_parallel :
    ∃ frames, encodeStream flatJson .messages "m" [.toolCallStart "a" "f" none 0,
        .customToolCallStart "b" "g" 3, .toolCallArgDelta "[1" 0, .textDelta "t",
        .customToolCallInputDelta "x" 3, .toolCallArgDelta "]" 0, .imageDelta "image/png" "d"] =
        .ok frames ∧
      Delivered flatJson [.toolCallStart "a" "f" none 0,
        .customToolCallStart "b" "g" 3, .toolCallArgDelta "[1" 0, .textDelta "t",
        .customToolCallInputDelta "x" 3, .toolCallArgDelta "]" 0, .imageDelta "image/png" "d"]
        frames :=
  messages_calls_delivered flatJson "m" _ (by decide) (by decide) (.of_allSteps (by decide))

/-- An image between two fragments closes the call and loses the second. -/
theorem messages_image_cuts_call :
    CallsWellFormed [.toolCallStart "a" "f" none 0, .toolCallArgDelta "[1" 0,
        .imageDelta "image/png" "d", .toolCallArgDelta "]" 0] ∧
      (∀ ev ∈ [IrStreamEvent.toolCallStart "a" "f" none 0, .toolCallArgDelta "[1" 0,
        .imageDelta "image/png" "d", .toolCallArgDelta "]" 0],
        copiedVerbatim flatJson .messages ev = false) ∧
      ¬ ∃ frames, encodeStream flatJson .messages "m" [.toolCallStart "a" "f" none 0,
          .toolCallArgDelta "[1" 0, .imageDelta "image/png" "d", .toolCallArgDelta "]" 0] =
          .ok frames ∧
        Delivered flatJson [.toolCallStart "a" "f" none 0, .toolCallArgDelta "[1" 0,
          .imageDelta "image/png" "d", .toolCallArgDelta "]" 0] frames := by
  refine ⟨by decide, by decide, ?_⟩
  rintro ⟨frames, hframes, hdelivered⟩
  have hcalls := hdelivered.calls
  obtain rfl := Except.ok.inj hframes
  revert hcalls
  decide

end Wiremux.MessagesCalls
