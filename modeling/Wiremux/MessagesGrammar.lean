import Wiremux.CallEvents
import Wiremux.MessagesBlocks
import Wiremux.SideChannels

set_option autoImplicit false

/-!
# Grammar of the Messages stream

`Shaped ms s fresh` ties the marks sent so far to the state: which block is
open, which calls are held behind it, and that every slot a fragment can be
routed to is closed, open or held. `fresh` is an index that was allocated and
is not placed yet.
-/
namespace Wiremux.MessagesGrammar
open JsonValue StreamEvents StreamEventEncoding StreamEventFrames EmittingRuns EncoderState
open MessagesEncoder SerialBlocks MessagesFrames OrderedMap ToolRouting MessagesBlocks
open StreamEncoderPush SideChannels CallEvents

/-- Events that are kept for the end of the stream behind a tool block. -/
def isDeferrable : IrStreamEvent → Bool
  | .textDelta _ => true
  | .reasoningDelta _ => true
  | .reasoningSignature _ => true
  | .audioTranscriptDelta _ => true
  | .annotationAdded _ => true
  | _ => false

/-- The slot is closed, the open tool block, or the held call of its index. -/
def Routed (s : StreamEncoder) (i enc : ℕ) : Prop :=
  enc ∈ s.closedTools ∨ s.openBlock = some (enc, .tool) ∨
    ∃ h, s.heldTools[i]? = some h ∧ h.enc = enc

structure Shaped (ms : List (Mark ℕ)) (s : StreamEncoder) (fresh : Option (ℕ × ℕ)) : Prop where
  wire : s.wire = .messages
  serial : Serial (· < ·) ms (s.openBlock.map Prod.fst)
  starts_lt : ∀ j ∈ starts ms, j < s.nextBlock
  held_lt : ∀ (i : ℕ) h, s.heldTools[i]? = some h → h.enc < s.nextBlock
  held_gt : ∀ (i : ℕ) h, s.heldTools[i]? = some h → ∀ j ∈ starts ms, j < h.enc
  apart : HeldApart s.heldTools
  held_behind : ∀ (i : ℕ) h, s.heldTools[i]? = some h → ∃ enc, s.openBlock = some (enc, .tool)
  routed : ∀ i enc, Known s.tools i enc → Routed s i enc ∨ fresh = some (i, enc)
  deferred : ∀ ev ∈ s.deferred, isDeferrable ev = true
  fresh_lt : ∀ i enc, fresh = some (i, enc) → enc < s.nextBlock
  fresh_gt : ∀ i enc, fresh = some (i, enc) → ∀ j ∈ starts ms, j < enc
  fresh_held : ∀ i enc, fresh = some (i, enc) →
    ∀ (k : ℕ) h, s.heldTools[k]? = some h → h.enc < enc

variable {ms : List (Mark ℕ)} {s t : StreamEncoder} {fresh : Option (ℕ × ℕ)}

theorem Shaped.congr (h : Shaped ms s fresh) (hwire : t.wire = s.wire)
    (hopen : t.openBlock = s.openBlock) (hnext : t.nextBlock = s.nextBlock)
    (hheld : t.heldTools = s.heldTools) (hclosed : t.closedTools = s.closedTools)
    (htools : ∀ i enc, Known t.tools i enc → Known s.tools i enc)
    (hdeferred : ∀ ev ∈ t.deferred, isDeferrable ev = true) : Shaped ms t fresh where
  wire := hwire.trans h.wire
  serial := hopen ▸ h.serial
  starts_lt := hnext ▸ h.starts_lt
  held_lt := by rw [hheld, hnext]; exact h.held_lt
  held_gt := by rw [hheld]; exact h.held_gt
  apart := by rw [hheld]; exact h.apart
  held_behind := by rw [hheld, hopen]; exact h.held_behind
  routed := fun i enc hk => by
    have := h.routed i enc (htools i enc hk)
    rwa [Routed, ← hclosed, ← hopen, ← hheld] at this
  deferred := hdeferred
  fresh_lt := hnext ▸ h.fresh_lt
  fresh_gt := h.fresh_gt
  fresh_held := by rw [hheld]; exact h.fresh_held

section
variable (sj : SerdeJson)

theorem mem_marks_args {index : ℕ} {inputs : List String} {m : Mark ℕ}
    (h : m ∈ marks (inputs.map (toolArgFrame index))) : m = .delta index := by
  obtain ⟨f, hf, rfl⟩ := List.mem_map.mp h
  obtain ⟨text, _, rfl⟩ := List.mem_map.mp hf
  rfl

theorem marks_heldBlock (custom : ℕ → Option String) (held : HeldTool) :
    marks (heldBlock sj custom held) = .start held.enc ::
      (marks ((heldInput sj (custom held.enc) held.args).map (toolArgFrame held.enc)) ++
        [.stop held.enc]) := by
  simp [heldBlock]

theorem heldBlocks_serial (custom : ℕ → Option String) {held : List HeldTool}
    (hstrict : StrictBy HeldTool.enc held) (h : Serial (· < ·) ms none)
    (hgt : ∀ x ∈ held, ∀ j ∈ starts ms, j < x.enc) :
    Serial (· < ·) (ms ++ marks (held.flatMap (heldBlock sj custom))) none ∧
      starts (ms ++ marks (held.flatMap (heldBlock sj custom))) =
        starts ms ++ held.map HeldTool.enc := by
  induction held generalizing ms with
  | nil => simpa using h
  | cons x held ih =>
    obtain ⟨hx, hrest⟩ := List.pairwise_cons.mp hstrict
    have hargs : ∀ m ∈ marks ((heldInput sj (custom x.enc) x.args).map (toolArgFrame x.enc)),
        m = .delta x.enc := fun m hm => mem_marks_args hm
    have hblock := h.block (hgt x (by simp)) hargs
    have hstarts : starts (ms ++ marks (heldBlock sj custom x)) = starts ms ++ [x.enc] := by
      rw [marks_heldBlock]
      simp [Serial.starts_of_deltas hargs]
    rw [← marks_heldBlock] at hblock
    have hgt' : ∀ y ∈ held, ∀ j ∈ starts (ms ++ marks (heldBlock sj custom x)), j < y.enc := by
      intro y hy j hj
      rw [hstarts, List.mem_append, List.mem_singleton] at hj
      rcases hj with hj | rfl
      · exact hgt y (by simp [hy]) j hj
      · exact hx y hy
    obtain ⟨hserial, heq⟩ := ih hrest hblock hgt'
    rw [hstarts] at heq
    simp only [List.flatMap_cons, marks_append]
    rw [← List.append_assoc]
    exact ⟨hserial, by rw [heq]; simp⟩

theorem openFrames_serial (h : Serial (· < ·) ms (s.openBlock.map Prod.fst)) :
    Serial (· < ·) (ms ++ marks (openFrames sj s)) none ∧
      starts (ms ++ marks (openFrames sj s)) = starts ms := by
  unfold openFrames
  cases hopen : s.openBlock with
  | none =>
    rw [hopen] at h
    simpa using h
  | some b =>
    obtain ⟨index, kind⟩ := b
    rw [hopen] at h
    simp only [marks_append, starts_append]
    rw [← List.append_assoc]
    refine ⟨(h.deltas _ fun m hm => mem_marks_args hm).stop, ?_⟩
    rw [Serial.starts_of_deltas fun m hm => mem_marks_args hm]
    simp

theorem Shaped.open_lt_held (h : Shaped ms s fresh) {b : ℕ × BlockKind}
    (hb : s.openBlock = some b) {x : HeldTool} (hx : x ∈ heldInOrder s) : b.1 < x.enc := by
  obtain ⟨i, hi⟩ := mem_heldInOrder.mp hx
  refine h.held_gt i x hi b.1 ?_
  have := h.serial.starts_eq
  rw [hb] at this
  simp [this]

theorem Shaped.closeOpen_eq (h : Shaped ms s fresh) :
    closeOpen sj s = (openFrames sj s ++ (heldInOrder s).flatMap (heldBlock sj s.customArgs),
      closedState s) :=
  MessagesBlocks.closeOpen_eq sj s h.apart fun _ hb _ hx =>
    (Nat.ne_of_lt (h.open_lt_held hb hx)).symm

theorem Shaped.closeOpen_snd (h : Shaped ms s fresh) : (closeOpen sj s).2 = closedState s :=
  congrArg Prod.snd (h.closeOpen_eq sj)

theorem closed_heldTools (s : StreamEncoder) (i : ℕ) : (closedState s).heldTools[i]? = none :=
  Std.TreeMap.getElem?_emptyc

theorem Shaped.close (h : Shaped ms s fresh) :
    Shaped (ms ++ marks (closeOpen sj s).1) (closeOpen sj s).2 fresh := by
  rw [h.closeOpen_eq sj]
  simp only [marks_append]
  rw [← List.append_assoc]
  obtain ⟨hserial, hstarts⟩ := openFrames_serial sj h.serial
  have hgt : ∀ x ∈ heldInOrder s, ∀ j ∈ starts (ms ++ marks (openFrames sj s)), j < x.enc := by
    intro x hx j hj
    obtain ⟨i, hi⟩ := mem_heldInOrder.mp hx
    exact h.held_gt i x hi j (hstarts ▸ hj)
  obtain ⟨hall, heq⟩ := heldBlocks_serial sj s.customArgs (strictBy_sortByEnc h.apart) hserial hgt
  rw [hstarts] at heq
  have hmem : ∀ j ∈ starts ms ++ (heldInOrder s).map HeldTool.enc,
      j ∈ starts ms ∨ ∃ (k : ℕ) (x : HeldTool), s.heldTools[k]? = some x ∧ x.enc = j := by
    intro j hj
    rcases List.mem_append.mp hj with hj | hj
    · exact Or.inl hj
    · obtain ⟨x, hx, rfl⟩ := List.mem_map.mp hj
      obtain ⟨k, hk⟩ := mem_heldInOrder.mp hx
      exact Or.inr ⟨k, x, hk, rfl⟩
  exact
    { wire := h.wire
      serial := hall
      starts_lt := fun j hj => by
        rcases hmem j (heq ▸ hj) with hj | ⟨k, x, hk, rfl⟩
        · exact h.starts_lt j hj
        · exact h.held_lt k x hk
      held_lt := fun i x hx => by rw [closed_heldTools] at hx; cases hx
      held_gt := fun i x hx => by rw [closed_heldTools] at hx; cases hx
      apart := fun i j x y hx => by rw [closed_heldTools] at hx; cases hx
      held_behind := fun i x hx => by rw [closed_heldTools] at hx; cases hx
      routed := fun i enc hk => by
        rcases h.routed i enc hk with (hc | ho | ⟨x, hx, rfl⟩) | hf
        · exact Or.inl (Or.inl (Finset.mem_union_left _ hc))
        · refine Or.inl (Or.inl (Finset.mem_union_right _ ?_))
          simp [closingEncs, ho]
        · refine Or.inl (Or.inl (Finset.mem_union_right _ ?_))
          have hmem := mem_heldInOrder.mpr ⟨i, hx⟩
          simp only [closingEncs, List.mem_toFinset, List.mem_append, List.mem_map]
          exact Or.inr ⟨x, hmem, rfl⟩
        · exact Or.inr hf
      deferred := h.deferred
      fresh_lt := h.fresh_lt
      fresh_gt := fun i enc hf j hj => by
        rcases hmem j (heq ▸ hj) with hj | ⟨k, x, hk, rfl⟩
        · exact h.fresh_gt i enc hf j hj
        · exact h.fresh_held i enc hf k x hk
      fresh_held := fun i enc _ k x hx => by rw [closed_heldTools] at hx; cases hx }

theorem Shaped.reserve (h : Shaped ms s none) (hroom : s.nextBlock < u32Max) {tools : ToolSlots}
    (i : ℕ) (htools : ∀ j e, Known tools j e → (j = i ∧ e = s.nextBlock) ∨ Known s.tools j e) :
    Shaped ms { s with nextBlock := satAdd s.nextBlock 1, tools := tools }
      (some (i, s.nextBlock)) := by
  have hnext : satAdd s.nextBlock 1 = s.nextBlock + 1 := satAdd_one_of_lt hroom
  exact
    { wire := h.wire
      serial := h.serial
      starts_lt := fun j hj => by
        have := h.starts_lt j hj
        simp only [hnext]
        omega
      held_lt := fun k x hx => by
        have := h.held_lt k x hx
        simp only [hnext]
        omega
      held_gt := h.held_gt
      apart := h.apart
      held_behind := h.held_behind
      routed := fun j e hk => by
        rcases htools j e hk with ⟨rfl, rfl⟩ | hk
        · exact Or.inr rfl
        · rcases h.routed j e hk with hr | hf
          · exact Or.inl hr
          · cases hf
      deferred := h.deferred
      fresh_lt := fun j e hf => by
        obtain ⟨rfl, rfl⟩ : i = j ∧ s.nextBlock = e := by simpa using hf
        simp only [hnext]
        omega
      fresh_gt := fun j e hf k hk => by
        obtain ⟨rfl, rfl⟩ : i = j ∧ s.nextBlock = e := by simpa using hf
        exact h.starts_lt k hk
      fresh_held := fun j e hf k x hx => by
        obtain ⟨rfl, rfl⟩ : i = j ∧ s.nextBlock = e := by simpa using hf
        exact h.held_lt k x hx }

theorem Shaped.none_held (h : Shaped ms s fresh) (hopen : s.openBlock = none) (i : ℕ) :
    s.heldTools[i]? = none := by
  cases hx : s.heldTools[i]? with
  | none => rfl
  | some x =>
    obtain ⟨enc, henc⟩ := h.held_behind i x hx
    rw [hopen] at henc
    cases henc

theorem Shaped.openTool {i enc : ℕ} (h : Shaped ms s (some (i, enc)))
    (hopen : s.openBlock = none) :
    Shaped (ms ++ [.start enc]) { s with openBlock := some (enc, .tool) } none := by
  have hserial := h.serial
  rw [hopen] at hserial
  have hheld := h.none_held hopen
  exact
    { wire := h.wire
      serial := hserial.start (h.fresh_gt i enc rfl)
      starts_lt := fun j hj => by
        rw [starts_append, List.mem_append] at hj
        rcases hj with hj | hj
        · exact h.starts_lt j hj
        · obtain rfl : j = enc := by simpa using hj
          exact h.fresh_lt i j rfl
      held_lt := h.held_lt
      held_gt := fun k x hx => by rw [hheld k] at hx; cases hx
      apart := h.apart
      held_behind := fun k x hx => by rw [hheld k] at hx; cases hx
      routed := fun j e hk => by
        rcases h.routed j e hk with (hc | ho | ⟨x, hx, rfl⟩) | hf
        · exact Or.inl (Or.inl hc)
        · rw [hopen] at ho
          cases ho
        · rw [hheld j] at hx
          cases hx
        · obtain ⟨rfl, rfl⟩ : i = j ∧ enc = e := by simpa using hf
          exact Or.inl (Or.inr (Or.inl rfl))
      deferred := h.deferred
      fresh_lt := fun j e hf => by cases hf
      fresh_gt := fun j e hf => by cases hf
      fresh_held := fun j e hf => by cases hf }

/-- With nothing open, the next index can be given to blocks that no fragment
is routed to: one that stays open, or one that is stopped at once. -/
theorem Shaped.nextBlock (h : Shaped ms s none) (hopen : s.openBlock = none)
    (hroom : s.nextBlock < u32Max) {ds : List (Mark ℕ)} {live : Option (ℕ × BlockKind)}
    (hserial : Serial (· < ·) (ms ++ .start s.nextBlock :: ds) (live.map Prod.fst))
    (hds : starts ds = []) :
    Shaped (ms ++ .start s.nextBlock :: ds)
      { s with nextBlock := satAdd s.nextBlock 1, openBlock := live } none := by
  have hnext : satAdd s.nextBlock 1 = s.nextBlock + 1 := satAdd_one_of_lt hroom
  have hheld := h.none_held hopen
  exact
    { wire := h.wire
      serial := hserial
      starts_lt := fun j hj => by
        simp only [starts_append, starts_start, hds, List.mem_append, List.mem_singleton] at hj
        rw [hnext]
        rcases hj with hj | rfl
        · exact Nat.lt_succ_of_lt (h.starts_lt j hj)
        · exact Nat.lt_succ_self _
      held_lt := fun k x hx => by rw [hheld k] at hx; cases hx
      held_gt := fun k x hx => by rw [hheld k] at hx; cases hx
      apart := h.apart
      held_behind := fun k x hx => by rw [hheld k] at hx; cases hx
      routed := fun j e hk => by
        rcases h.routed j e hk with (hc | ho | ⟨x, hx, rfl⟩) | hf
        · exact Or.inl (Or.inl hc)
        · rw [hopen] at ho
          cases ho
        · rw [hheld j] at hx
          cases hx
        · cases hf
      deferred := h.deferred
      fresh_lt := fun j e hf => by cases hf
      fresh_gt := fun j e hf => by cases hf
      fresh_held := fun j e hf => by cases hf }

theorem Shaped.hold {i enc : ℕ} (h : Shaped ms s (some (i, enc))) {index : ℕ}
    (hopen : s.openBlock = some (index, .tool)) (hnone : s.heldTools[i]? = none)
    {x : HeldTool} (hx : x.enc = enc) :
    Shaped ms { s with heldTools := s.heldTools.insert i x } none := by
  have hget : ∀ (k : ℕ) y, (s.heldTools.insert i x)[k]? = some y →
      (k = i ∧ y = x) ∨ (k ≠ i ∧ s.heldTools[k]? = some y) := by
    intro k y hy
    rw [getElem?_insert] at hy
    by_cases hk : i = k
    · rw [if_pos hk] at hy
      exact Or.inl ⟨hk.symm, (Option.some.inj hy).symm⟩
    · rw [if_neg hk] at hy
      exact Or.inr ⟨fun h => hk h.symm, hy⟩
  exact
    { wire := h.wire
      serial := h.serial
      starts_lt := h.starts_lt
      held_lt := fun k y hy => by
        rcases hget k y hy with ⟨_, rfl⟩ | ⟨_, hy⟩
        · exact hx ▸ h.fresh_lt i enc rfl
        · exact h.held_lt k y hy
      held_gt := fun k y hy => by
        rcases hget k y hy with ⟨_, rfl⟩ | ⟨_, hy⟩
        · exact hx ▸ h.fresh_gt i enc rfl
        · exact h.held_gt k y hy
      apart := fun k l y z hy hz heq => by
        rcases hget k y hy with ⟨rfl, rfl⟩ | ⟨_, hy'⟩ <;>
          rcases hget l z hz with ⟨rfl, rfl⟩ | ⟨_, hz'⟩
        · rfl
        · have := h.fresh_held k enc rfl l z hz'
          omega
        · have := h.fresh_held l enc rfl k y hy'
          omega
        · exact h.apart k l y z hy' hz' heq
      held_behind := fun _ _ _ => ⟨index, hopen⟩
      routed := fun j e hk => by
        rcases h.routed j e hk with (hc | ho | ⟨y, hy, rfl⟩) | hf
        · exact Or.inl (Or.inl hc)
        · exact Or.inl (Or.inr (Or.inl ho))
        · refine Or.inl (Or.inr (Or.inr ⟨y, ?_, rfl⟩))
          have hj : i ≠ j := fun hij => by
            rw [← hij, hnone] at hy
            cases hy
          simpa [getElem?_insert, hj] using hy
        · obtain ⟨rfl, rfl⟩ : i = j ∧ enc = e := by simpa using hf
          refine Or.inl (Or.inr (Or.inr ⟨x, ?_, hx⟩))
          simp
      deferred := h.deferred
      fresh_lt := fun j e hf => by cases hf
      fresh_gt := fun j e hf => by cases hf
      fresh_held := fun j e hf => by cases hf }

theorem Shaped.modifyHeld (h : Shaped ms s fresh) {i : ℕ} {old new : HeldTool}
    (hold : s.heldTools[i]? = some old) (henc : new.enc = old.enc) :
    Shaped ms { s with heldTools := s.heldTools.insert i new } fresh := by
  have hget : ∀ (k : ℕ) y, (s.heldTools.insert i new)[k]? = some y →
      ∃ z, s.heldTools[k]? = some z ∧ y.enc = z.enc := by
    intro k y hy
    rw [getElem?_insert] at hy
    by_cases hk : i = k
    · subst hk
      obtain rfl : new = y := by simpa using hy
      exact ⟨old, hold, henc⟩
    · rw [if_neg hk] at hy
      exact ⟨y, hy, rfl⟩
  exact
    { wire := h.wire
      serial := h.serial
      starts_lt := h.starts_lt
      held_lt := fun k y hy => by
        obtain ⟨z, hz, heq⟩ := hget k y hy
        exact heq ▸ h.held_lt k z hz
      held_gt := fun k y hy => by
        obtain ⟨z, hz, heq⟩ := hget k y hy
        exact heq ▸ h.held_gt k z hz
      apart := fun k l y y' hy hy' heq => by
        obtain ⟨z, hz, hyz⟩ := hget k y hy
        obtain ⟨z', hz', hyz'⟩ := hget l y' hy'
        exact h.apart k l z z' hz hz' (by omega)
      held_behind := fun k y hy => by
        obtain ⟨z, hz, _⟩ := hget k y hy
        exact h.held_behind k z hz
      routed := fun j e hk => by
        rcases h.routed j e hk with (hc | ho | ⟨y, hy, rfl⟩) | hf
        · exact Or.inl (Or.inl hc)
        · exact Or.inl (Or.inr (Or.inl ho))
        · refine Or.inl (Or.inr (Or.inr ?_))
          by_cases hij : i = j
          · subst hij
            rw [hold] at hy
            obtain rfl : old = y := by simpa using hy
            exact ⟨new, by simp, henc⟩
          · exact ⟨y, by simpa [getElem?_insert, hij] using hy, rfl⟩
        · exact Or.inr hf
      deferred := h.deferred
      fresh_lt := h.fresh_lt
      fresh_gt := h.fresh_gt
      fresh_held := fun j e hf k y hy => by
        obtain ⟨z, hz, heq⟩ := hget k y hy
        exact heq ▸ h.fresh_held j e hf k z hz }

theorem Shaped.delta (h : Shaped ms s fresh) {b : ℕ × BlockKind} (hb : s.openBlock = some b) :
    Shaped (ms ++ [.delta b.1]) s fresh := by
  have hserial := h.serial
  rw [hb] at hserial
  have hstarts : starts (ms ++ [Mark.delta b.1]) = starts ms := by simp
  exact
    { wire := h.wire
      serial := by rw [hb]; exact hserial.delta
      starts_lt := by rw [hstarts]; exact h.starts_lt
      held_lt := h.held_lt
      held_gt := by rw [hstarts]; exact h.held_gt
      apart := h.apart
      held_behind := h.held_behind
      routed := h.routed
      deferred := h.deferred
      fresh_lt := h.fresh_lt
      fresh_gt := by rw [hstarts]; exact h.fresh_gt
      fresh_held := h.fresh_held }

/-- What every operation leaves alone, and how much room it takes. -/
structure Kept (s t : StreamEncoder) : Prop where
  started : t.started = s.started
  finished : t.finished = s.finished
  room : t.nextBlock + t.deferred.length ≤ s.nextBlock + s.deferred.length + 1

theorem Kept.refl (s : StreamEncoder) : Kept s s := ⟨rfl, rfl, Nat.le_succ _⟩

theorem ensureBlock_shaped (kind : BlockKind) (h : Shaped ms s none)
    (hroom : s.nextBlock < u32Max) :
    ∃ index, (ensureBlock sj kind s).2.openBlock = some (index, kind) ∧
      Shaped (ms ++ marks (ensureBlock sj kind s).1) (ensureBlock sj kind s).2 none ∧
      Kept s (ensureBlock sj kind s).2 := by
  unfold ensureBlock
  by_cases hkind : s.opensKind kind = true
  · rw [if_pos hkind]
    unfold StreamEncoder.opensKind at hkind
    cases hopen : s.openBlock with
    | none => simp [hopen] at hkind
    | some b =>
      obtain ⟨index, k⟩ := b
      obtain rfl : k = kind := by simpa [hopen] using hkind
      exact ⟨index, rfl, by simpa using h, Kept.refl s⟩
  · have heq := h.closeOpen_snd sj
    have hclose := h.close sj
    simp only [if_neg hkind, heq]
    rw [heq] at hclose
    have hstart := hclose.serial.start hclose.starts_lt
    have hnext := @Shaped.nextBlock _ _ hclose rfl hroom _ (some (s.nextBlock, kind))
      hstart rfl
    simp only [marks_append, ← List.append_assoc]
    refine ⟨s.nextBlock, rfl, hnext, ⟨rfl, rfl, ?_⟩⟩
    · have := satAdd_one_le s.nextBlock
      simp only [closedState]
      omega

theorem blockDelta_shaped (kind : BlockKind) (body : Value) (h : Shaped ms s none)
    (hroom : s.nextBlock < u32Max) :
    Shaped (ms ++ marks (blockDelta sj kind body s).1) (blockDelta sj kind body s).2 none ∧
      Kept s (blockDelta sj kind body s).2 := by
  obtain ⟨index, hopen, hshaped, hkept⟩ := ensureBlock_shaped sj kind h hroom
  have hdelta := hshaped.delta hopen
  have hindex : (ensureBlock sj kind s).2.openIndex = index := by
    simp [StreamEncoder.openIndex, hopen]
  unfold blockDelta
  simp only [hindex]
  exact ⟨by simpa using hdelta, hkept⟩

theorem deferOr_shaped {ev : IrStreamEvent} (hev : isDeferrable ev = true)
    {emit : StreamEncoder → List RawSse × StreamEncoder} (h : Shaped ms s none)
    (hemit : Shaped (ms ++ marks (emit s).1) (emit s).2 none ∧ Kept s (emit s).2) :
    Shaped (ms ++ marks (deferOr ev emit s).1) (deferOr ev emit s).2 none ∧
      Kept s (deferOr ev emit s).2 := by
  unfold deferOr
  split
  · refine ⟨?_, ⟨rfl, rfl, ?_⟩⟩
    · simp only [marks_nil, List.append_nil]
      refine h.congr rfl rfl rfl rfl rfl (fun _ _ hk => hk) fun e he => ?_
      rcases List.mem_append.mp he with he | he
      · exact h.deferred e he
      · obtain rfl : e = ev := by simpa using he
        exact hev
    · simp only [List.length_append, List.length_singleton]
      omega
  · exact hemit

theorem messagesImage_shaped (mediaType data : String) (h : Shaped ms s none)
    (hroom : s.nextBlock < u32Max) :
    Shaped (ms ++ marks (messagesImage sj mediaType data s).1)
        (messagesImage sj mediaType data s).2 none ∧
      Kept s (messagesImage sj mediaType data s).2 := by
  have hclose := h.close sj
  have heq := h.closeOpen_snd sj
  simp only [messagesImage, heq]
  rw [heq] at hclose
  have hblock := @Serial.block _ _ _ _ hclose.serial hclose.starts_lt [] (by simp)
  have hnext := @Shaped.nextBlock _ _ hclose rfl hroom _ none hblock rfl
  simp only [marks_append, ← List.append_assoc]
  refine ⟨hnext, ⟨rfl, rfl, ?_⟩⟩
  have := satAdd_one_le s.nextBlock
  simp only [closedState]
  omega

theorem noteCustomSlot_eq (enc : ℕ) (custom : Bool) (s : StreamEncoder) :
    noteCustomSlot enc custom s = { s with
      customArgs := if custom then pushStr s.customArgs enc "" else s.customArgs } := by
  unfold noteCustomSlot
  cases custom <;> rfl

theorem Shaped.withCustomArgs (h : Shaped ms s fresh) (custom : ℕ → Option String) :
    Shaped ms { s with customArgs := custom } fresh :=
  h.congr rfl rfl rfl rfl rfl (fun _ _ hk => hk) h.deferred

theorem openTool_shaped {i enc : ℕ} (id name : String) (h : Shaped ms s (some (i, enc)))
    (hopen : s.openBlock = none) :
    Shaped (ms ++ marks (openTool enc id name s).1) (openTool enc id name s).2 none := by
  have := h.openTool hopen
  exact this.congr rfl rfl rfl rfl rfl (fun _ _ hk => hk) h.deferred

theorem messagesToolStart_fresh (custom : Bool) (id name : String) (index : ℕ)
    (h : Shaped ms s none) (hroom : s.nextBlock < u32Max) (hnone : s.heldTools[index]? = none) :
    let alloc := allocTool index s
    let noted := noteCustomSlot alloc.1 custom alloc.2
    let closed := closeOpen sj noted
    let opened := openTool alloc.1 id name closed.2
    (∀ k, s.openBlock = some (k, .tool) →
      Shaped ms { noted with
        heldTools := noted.heldTools.insert index ⟨alloc.1, id, name, ""⟩ } none) ∧
      Shaped (ms ++ marks (closed.1 ++ opened.1)) opened.2 none ∧ Kept s opened.2 := by
  have hwire : s.wire ≠ .chatCompletions := by rw [h.wire]; decide
  have hreserved := h.reserve hroom index
    fun j e hk => known_assign hk
  simp only [allocTool_block index hwire, noteCustomSlot_eq]
  have hnoted := hreserved.withCustomArgs
    (if custom then pushStr s.customArgs s.nextBlock "" else s.customArgs)
  have hsnd := hnoted.closeOpen_snd sj
  have hclose := hnoted.close sj
  rw [hsnd] at hclose ⊢
  refine ⟨fun k hk => hnoted.hold hk hnone rfl, ?_, ⟨rfl, rfl, ?_⟩⟩
  · have := openTool_shaped id name hclose rfl
    simpa using this
  · have := satAdd_one_le s.nextBlock
    simp only [openTool, closedState]
    omega

theorem messagesToolStart_shaped (custom : Bool) (id name : String) (index : ℕ)
    (h : Shaped ms s none) (hroom : s.nextBlock < u32Max) :
    Shaped (ms ++ marks (messagesToolStart sj custom id name index s).1)
        (messagesToolStart sj custom id name index s).2 none ∧
      Kept s (messagesToolStart sj custom id name index s).2 := by
  have hwire : s.wire ≠ .chatCompletions := by rw [h.wire]; decide
  unfold messagesToolStart
  simp only
  split
  · -- a repeated chunk of the open call
    cases openToolEnc s with
    | none => exact ⟨by simpa using h, Kept.refl s⟩
    | some enc =>
      simp only [noteCustomSlot_eq]
      exact ⟨by simpa using h.withCustomArgs _, ⟨rfl, rfl, Nat.le_succ _⟩⟩
  · split
    · -- another call at the index of the open one
      have hsnd := h.closeOpen_snd sj
      have hclose := h.close sj
      rw [hsnd] at hclose ⊢
      have hw : ({ closedState s with tools := { (closedState s).tools with
          slots := Function.update (closedState s).tools.slots index [] } } :
            StreamEncoder).wire ≠ .chatCompletions := hwire
      rw [allocTool_block index hw]
      simp only [noteCustomSlot_eq]
      have hreserved := @Shaped.reserve _ _ hclose hroom
        (ToolSlots.assign { (closedState s).tools with
          slots := Function.update (closedState s).tools.slots index [] } index s.nextBlock) index
        (by
          intro j e hk
          rcases known_assign hk with hk | hk
          · exact Or.inl hk
          · right
            rcases hk with hk | hk
            · by_cases hj : j = index
              · subst hj
                simp at hk
              · exact Or.inl (by simpa [hj] using hk)
            · exact Or.inr hk)
      have hnoted := hreserved.withCustomArgs
        (if custom then pushStr (closedState s).customArgs s.nextBlock ""
          else (closedState s).customArgs)
      have hopened := openTool_shaped id name hnoted rfl
      refine ⟨?_, ⟨rfl, rfl, ?_⟩⟩
      · simp only [marks_append, ← List.append_assoc]
        exact hopened
      · have := satAdd_one_le s.nextBlock
        simp only [openTool, closedState]
        omega
    · cases hheld : s.heldTools[index]? with
      | some held =>
        simp only [noteCustomSlot_eq]
        refine ⟨?_, ⟨rfl, rfl, Nat.le_succ _⟩⟩
        have := @Shaped.modifyHeld _ _ _ h _ _ { held with
          id := if held.id.isEmpty then id else held.id
          name := if held.name.isEmpty then name else held.name } hheld rfl
        simpa using this.withCustomArgs _
      | none =>
        obtain ⟨hhold, hopen, hkept⟩ :=
          messagesToolStart_fresh sj custom id name index h hroom hheld
        simp only at hhold hopen hkept ⊢
        split
        · rename_i hother
          have hblock : (allocTool index s).2.openBlock = s.openBlock := by
            rw [allocTool_block index hwire]
          rw [hblock] at hother
          cases hb : s.openBlock with
          | none => simp [hb] at hother
          | some b =>
            obtain ⟨k, kind⟩ := b
            have hkind : kind = .tool := by
              simp only [hb, Option.any_some, Bool.and_eq_true, decide_eq_true_eq] at hother
              exact hother.1
            subst hkind
            refine ⟨by simpa using hhold k hb, ?_⟩
            simp only [allocTool_block index hwire, noteCustomSlot_eq]
            refine ⟨rfl, rfl, ?_⟩
            have := satAdd_one_le s.nextBlock
            simp only
            omega
        · exact ⟨hopen, hkept⟩

theorem messagesToolArg_shaped (custom : Bool) (delta : String) (index : ℕ)
    (h : Shaped ms s none) (hslot : (s.tools.last index).isSome) :
    Shaped (ms ++ marks (messagesToolArg sj custom delta index s).1)
        (messagesToolArg sj custom delta index s).2 none ∧
      Kept s (messagesToolArg sj custom delta index s).2 := by
  obtain ⟨enc, tools, hroute, hknown, hsub, _⟩ := toolEnc_known hslot
  have hrouted : Shaped ms { s with tools := tools } none :=
    h.congr rfl rfl rfl rfl rfl hsub h.deferred
  unfold messagesToolArg
  simp only [hroute]
  split
  · exact ⟨by simpa using hrouted.withCustomArgs _, ⟨rfl, rfl, Nat.le_succ _⟩⟩
  · cases hheld : s.heldTools[index]? with
    | some held =>
      simp only
      split
      · exact ⟨by simpa using hrouted.withCustomArgs _, ⟨rfl, rfl, Nat.le_succ _⟩⟩
      · have := @Shaped.modifyHeld _ _ _ hrouted _ _
          { held with args := held.args ++ delta } hheld rfl
        exact ⟨by simpa using this, ⟨rfl, rfl, Nat.le_succ _⟩⟩
    | none =>
      simp only
      split
      · exact ⟨by simpa using hrouted, ⟨rfl, rfl, Nat.le_succ _⟩⟩
      · rename_i hclosed
        have hopen : s.openBlock = some (enc, .tool) := by
          rcases h.routed index enc hknown with (hc | ho | ⟨x, hx, _⟩) | hf
          · exact absurd hc hclosed
          · exact ho
          · rw [hheld] at hx
            cases hx
          · cases hf
        have hdelta := hrouted.delta (b := (enc, .tool)) hopen
        split
        · exact ⟨by simpa using hdelta, ⟨rfl, rfl, Nat.le_succ _⟩⟩
        · exact ⟨by simpa using hdelta, ⟨rfl, rfl, Nat.le_succ _⟩⟩

def hasMessagesArm : IrStreamEvent → Bool
  | .searchEntryPoint _ => false
  | .customToolCallStart _ _ _ => false
  | .customToolCallInputDelta _ _ => false
  | .protocol _ _ => false
  | .unknown _ _ => false
  | .done => false
  | _ => true

theorem messagesEvent_shaped (custom : Bool) (ev : IrStreamEvent) (h : Shaped ms s none)
    (harm : hasMessagesArm ev = true) (hroom : s.nextBlock < u32Max)
    (hslot : ∀ delta index, ev = .toolCallArgDelta delta index → (s.tools.last index).isSome) :
    ∃ frames t, messagesEvent sj custom ev s = .ok (frames, t) ∧
      Shaped (ms ++ marks frames) t none ∧ Kept s t := by
  have same : ∀ {u : StreamEncoder}, Shaped ms u none → Shaped (ms ++ marks []) u none := by
    intro u hu
    simpa using hu
  cases ev with
  | textDelta text =>
    exact ⟨_, _, rfl, deferOr_shaped rfl h (blockDelta_shaped sj _ _ h hroom)⟩
  | reasoningDelta text =>
    exact ⟨_, _, rfl, deferOr_shaped rfl h (blockDelta_shaped sj _ _ h hroom)⟩
  | reasoningSignature signature =>
    exact ⟨_, _, rfl, deferOr_shaped rfl h (blockDelta_shaped sj _ _ h hroom)⟩
  | audioTranscriptDelta text =>
    exact ⟨_, _, rfl, deferOr_shaped rfl h (blockDelta_shaped sj _ _ h hroom)⟩
  | annotationAdded ann =>
    exact ⟨_, _, rfl, deferOr_shaped rfl h (blockDelta_shaped sj _ _ h hroom)⟩
  | toolCallStart id name sig index =>
    exact ⟨_, _, rfl, messagesToolStart_shaped sj custom id name index h hroom⟩
  | toolCallArgDelta delta index =>
    exact ⟨_, _, rfl, messagesToolArg_shaped sj custom delta index h (hslot delta index rfl)⟩
  | imageDelta mediaType data =>
    exact ⟨_, _, rfl, messagesImage_shaped sj mediaType data h hroom⟩
  | finishReason reason vendor =>
    exact ⟨_, _, rfl, same (h.congr rfl rfl rfl rfl rfl (fun _ _ hk => hk) h.deferred),
      ⟨rfl, rfl, Nat.le_succ _⟩⟩
  | refusalDelta text =>
    exact ⟨_, _, rfl, same (h.congr rfl rfl rfl rfl rfl (fun _ _ hk => hk) h.deferred),
      ⟨rfl, rfl, Nat.le_succ _⟩⟩
  | usage u geo =>
    exact ⟨_, _, rfl, same (h.congr rfl rfl rfl rfl rfl (fun _ _ hk => hk) h.deferred),
      ⟨rfl, rfl, Nat.le_succ _⟩⟩
  | toolCallEnd => exact ⟨_, _, rfl, same h, .refl s⟩
  | audioDelta data => exact ⟨_, _, rfl, same h, .refl s⟩
  | logprobs content refusal => exact ⟨_, _, rfl, same h, .refl s⟩
  | created unix => exact ⟨_, _, rfl, same h, .refl s⟩
  | serviceTier tier => exact ⟨_, _, rfl, same h, .refl s⟩
  | metadata entries => exact ⟨_, _, rfl, same h, .refl s⟩
  | moderation input output => exact ⟨_, _, rfl, same h, .refl s⟩
  | diagnostics reason => exact ⟨_, _, rfl, same h, .refl s⟩
  | container value => exact ⟨_, _, rfl, same h, .refl s⟩
  | contextManagement value => exact ⟨_, _, rfl, same h, .refl s⟩
  | stopSequence text => exact ⟨_, _, rfl, same h, .refl s⟩
  | searchEntryPoint rendered => cases harm
  | customToolCallStart id name index => cases harm
  | customToolCallInputDelta delta index => cases harm
  | protocol itemType payload => cases harm
  | unknown event raw => cases harm
  | done => cases harm

/-- Before `message_start` nothing was sent, and the blocks are shaped as they
will be behind it. -/
structure Tracks (ms : List (Mark ℕ)) (s : StreamEncoder) : Prop where
  shaped : Shaped (if s.started then ms else [.head]) s none
  silent : s.started = false → ms = []

theorem noteMessagesEvent_fields (ev : IrStreamEvent) (s : StreamEncoder) :
    ∃ tier m, noteMessagesEvent ev s = { s with serviceTier := tier, messages := m } := by
  unfold noteMessagesEvent
  split <;> exact ⟨_, _, rfl⟩

theorem startMessages_fields (s : StreamEncoder) :
    ∃ m, (startMessages s).2 = { s with started := true, messages := m } := by
  unfold startMessages
  cases hstarted : s.started with
  | true =>
    refine ⟨s.messages, ?_⟩
    simp only [if_true, ← hstarted]
  | false => exact ⟨_, rfl⟩

theorem Shaped.start (h : Shaped ms s fresh) : Shaped ms (startMessages s).2 fresh := by
  obtain ⟨m, heq⟩ := startMessages_fields s
  rw [heq]
  exact h.congr rfl rfl rfl rfl rfl (fun _ _ hk => hk) h.deferred

theorem Shaped.note (h : Shaped ms s fresh) (ev : IrStreamEvent) :
    Shaped ms (noteMessagesEvent ev s) fresh := by
  obtain ⟨tier, m, heq⟩ := noteMessagesEvent_fields ev s
  rw [heq]
  exact h.congr rfl rfl rfl rfl rfl (fun _ _ hk => hk) h.deferred

theorem marks_startMessages (s : StreamEncoder) :
    marks (startMessages s).1 = if s.started then [] else [.head] := by
  unfold startMessages
  cases s.started <;> rfl

theorem Tracks.of_shaped (h : Shaped ms s none) (hstarted : s.started = true) : Tracks ms s :=
  ⟨by rw [if_pos hstarted]; exact h, fun hf => by rw [hstarted] at hf; cases hf⟩

theorem Tracks.start (h : Tracks ms s) :
    Shaped (ms ++ marks (startMessages s).1) (startMessages s).2 none := by
  have hstart := h.shaped.start
  rw [marks_startMessages]
  cases hstarted : s.started with
  | true => simpa [hstarted] using hstart
  | false => simpa [hstarted, h.silent hstarted] using hstart

def fragmentIndex? (ev : IrStreamEvent) : Option ℕ := (fragmentOf? ev).map Fragment.index

theorem pushMessages_shaped {ev : IrStreamEvent} (h : Shaped ms s none)
    (harm : hasMessagesArm (customToolAsFunction ev) = true) (hroom : s.nextBlock < u32Max)
    (hslot : ∀ index ∈ fragmentIndex? ev, (s.tools.last index).isSome = true) :
    ∃ body t, pushMessages sj s ev =
        .ok ((if t.started then (startMessages (noteMessagesEvent (customToolAsFunction ev) s)).1
          else []) ++ body, t) ∧
      Shaped (ms ++ marks body) t none ∧ t.finished = s.finished ∧
      t.nextBlock + t.deferred.length ≤ s.nextBlock + s.deferred.length + 1 ∧
      (s.started = true → t.started = true) ∧ (t.started = false → body = []) := by
  have hnoted := h.note (customToolAsFunction ev)
  obtain ⟨tier, m, heq⟩ := noteMessagesEvent_fields (customToolAsFunction ev) s
  unfold pushMessages
  simp only
  rw [heq] at hnoted ⊢
  split
  · rename_i hquiet
    simp only [Bool.and_eq_true, Bool.not_eq_true'] at hquiet
    refine ⟨[], { s with serviceTier := tier, messages := m }, ?_, by simpa using hnoted, rfl,
      Nat.le_succ _, fun hs => ?_, fun _ => rfl⟩
    · simp [hquiet.1]
    · rw [hquiet.1] at hs
      cases hs
  · have hstart := hnoted.start
    obtain ⟨m', hopening⟩ := startMessages_fields { s with serviceTier := tier, messages := m }
    have hslot' : ∀ delta index, customToolAsFunction ev = .toolCallArgDelta delta index →
        ((startMessages { s with serviceTier := tier, messages := m }).2.tools.last
          index).isSome := by
      intro delta index hev
      rw [hopening]
      refine hslot index ?_
      cases ev <;> cases hev <;> rfl
    obtain ⟨frames, t, hok, hshaped, hkept⟩ := messagesEvent_shaped sj (isCustomTool ev) _ hstart
      harm (by rw [hopening]; exact hroom) hslot'
    have htstarted : t.started = true := by rw [hkept.started, hopening]
    rw [hok]
    refine ⟨frames, t, by simp [Except.map, htstarted], hshaped, ?_, ?_, fun _ => htstarted,
      fun hf => ?_⟩
    · rw [hkept.finished, hopening]
    · have := hkept.room
      rw [hopening] at this
      exact this
    · rw [htstarted] at hf
      cases hf

theorem pushMessages_tracks {ev : IrStreamEvent} (h : Tracks ms s)
    (harm : hasMessagesArm (customToolAsFunction ev) = true) (hroom : s.nextBlock < u32Max)
    (hslot : ∀ index ∈ fragmentIndex? ev, (s.tools.last index).isSome = true) :
    ∃ frames t, pushMessages sj s ev = .ok (frames, t) ∧ Tracks (ms ++ marks frames) t ∧
      t.finished = s.finished ∧
      t.nextBlock + t.deferred.length ≤ s.nextBlock + s.deferred.length + 1 ∧
      (s.started = true → t.started = true) := by
  obtain ⟨body, t, hok, hshaped, hfinished, hgrow, hkeep, hquiet⟩ :=
    pushMessages_shaped sj h.shaped harm hroom hslot
  obtain ⟨tier, m, heq⟩ := noteMessagesEvent_fields (customToolAsFunction ev) s
  refine ⟨_, t, hok, ?_, hfinished, hgrow, hkeep⟩
  cases htstarted : t.started with
  | true =>
    refine .of_shaped ?_ htstarted
    rw [heq]
    simp only [if_true, marks_append, marks_startMessages]
    cases hstarted : s.started with
    | true => simpa [hstarted] using hshaped
    | false => simpa [hstarted, h.silent hstarted] using hshaped
  | false =>
    have hstarted : s.started = false := by
      cases hs : s.started with
      | false => rfl
      | true => exact absurd (hkeep hs) (by rw [htstarted]; decide)
    have hbody := hquiet htstarted
    subst hbody
    rw [hstarted] at hshaped
    rw [h.silent hstarted]
    exact ⟨by simpa [htstarted] using hshaped, fun _ => by simp⟩

theorem pushDeferred_shaped {ev : IrStreamEvent} (hev : isDeferrable ev = true)
    (h : Shaped ms s none) (hstarted : s.started = true) (hroom : s.nextBlock < u32Max) :
    Shaped (ms ++ marks (pushDeferred sj ev s).1) (pushDeferred sj ev s).2 none ∧
      (pushDeferred sj ev s).2.started = true ∧
      (pushDeferred sj ev s).2.finished = s.finished ∧
      (pushDeferred sj ev s).2.nextBlock + (pushDeferred sj ev s).2.deferred.length ≤
        s.nextBlock + s.deferred.length + 1 := by
  have harm : hasMessagesArm (customToolAsFunction ev) = true := by
    cases ev <;> simp_all [isDeferrable, customToolAsFunction, hasMessagesArm]
  have hnot : ∀ index ∈ fragmentIndex? ev, (s.tools.last index).isSome = true := by
    intro index hi
    cases ev <;> simp_all [isDeferrable, fragmentIndex?, fragmentOf?]
  obtain ⟨frames, t, hok, htracks, hfinished, hkept, hkeep⟩ :=
    pushMessages_tracks sj (.of_shaped h hstarted) harm hroom hnot
  unfold pushDeferred
  rw [hok]
  have htstarted := hkeep hstarted
  have := htracks.shaped
  rw [if_pos htstarted] at this
  exact ⟨this, htstarted, hfinished, hkept⟩

theorem drainMessages_serial (h : Tracks ms s)
    (hroom : s.nextBlock + s.deferred.length ≤ u32Max) :
    Serial (· < ·) (ms ++ marks (drainMessages sj s).1) none ∧
      (drainMessages sj s).2.finished = s.finished := by
  have hstart := h.start
  obtain ⟨m, hopening⟩ := startMessages_fields s
  have hstarted : (startMessages s).2.started = true := by rw [hopening]
  have hclose := hstart.close sj
  have hsnd := hstart.closeOpen_snd sj
  have hdeferred : (closeOpen sj (startMessages s).2).2.deferred = s.deferred := by
    rw [hsnd, hopening]
    rfl
  let before := ms ++ marks ((startMessages s).1 ++ (closeOpen sj (startMessages s).2).1)
  let Inv : List IrStreamEvent → List RawSse → StreamEncoder → Prop := fun rest out t =>
    Shaped (before ++ marks out) t none ∧ t.started = true ∧ t.finished = s.finished ∧
      (∀ ev ∈ rest, isDeferrable ev = true) ∧
      t.nextBlock + t.deferred.length + rest.length ≤ u32Max
  have hstep : ∀ ev rest out t, Inv (ev :: rest) out t →
      Inv rest (out ++ (pushDeferred sj ev t).1) (pushDeferred sj ev t).2 := by
    rintro ev rest out t ⟨hshaped, htstarted, htfinished, hall, hfit⟩
    simp only [List.length_cons] at hfit
    obtain ⟨hnext, hnstarted, hnfinished, hgrow⟩ :=
      pushDeferred_shaped sj (hall ev (by simp)) hshaped htstarted (by omega)
    refine ⟨?_, hnstarted, hnfinished.trans htfinished, fun e he => hall e (by simp [he]),
      by omega⟩
    simp only [marks_append, ← List.append_assoc]
    exact hnext
  have hinit : Inv (closeOpen sj (startMessages s).2).2.deferred []
      { (closeOpen sj (startMessages s).2).2 with deferred := [] } := by
    refine ⟨?_, ?_, ?_, ?_, ?_⟩
    · have : Shaped (before ++ marks []) (closeOpen sj (startMessages s).2).2 none := by
        simpa [before] using hclose
      exact this.congr rfl rfl rfl rfl rfl (fun _ _ hk => hk) (by simp)
    · rw [hsnd]
      exact hstarted
    · rw [hsnd, hopening]
      rfl
    · exact hclose.deferred
    · rw [hdeferred, hsnd, hopening]
      simpa [closedState] using hroom
  obtain ⟨hlate, _, hfinished, _⟩ := emitEach_invariant (pushDeferred sj) Inv hstep _ _ _ hinit
  have hlast := hlate.close sj
  have := hlast.serial
  have heq := hlate.closeOpen_snd sj
  rw [heq] at this
  change Serial _ _ none at this
  refine ⟨by simpa [drainMessages, before] using this, ?_⟩
  simp only [drainMessages, heq]
  exact hfinished

theorem finishMessages_wellFormed (h : Tracks ms s)
    (hroom : s.nextBlock + s.deferred.length ≤ u32Max) :
    WellFormed (· < ·) 2 (ms ++ marks (finishMessages sj s).1) ∧
      (finishMessages sj s).2.finished = s.finished := by
  obtain ⟨hserial, hfinished⟩ := drainMessages_serial sj h hroom
  have := hserial.wellFormed 2
  exact ⟨by simpa [finishMessages, tails, List.range_succ] using this, hfinished⟩

def isMessagesCitation : IrStreamEvent → Bool
  | .protocol itemType payload => itemType = "messages_citation" && payload.isObject
  | _ => false

/-- Where a step of the Messages encoder keeps the grammar: a citation comes
after `message_start`, a fragment belongs to an index that has a slot, and the
block indexes have not run out. -/
def MessagesSafe (s : StreamEncoder) (ev : IrStreamEvent) : Prop :=
  s.finished = false →
    (isMessagesCitation ev = true → s.started = true) ∧
    (∀ index ∈ fragmentIndex? ev, (s.tools.last index).isSome = true) ∧
    s.nextBlock + s.deferred.length < u32Max

instance (s : StreamEncoder) (ev : IrStreamEvent) : Decidable (MessagesSafe s ev) :=
  inferInstanceAs (Decidable (_ → _ ∧ _ ∧ _))

/-- The trace of a stream that may have ended. -/
structure Streaming (ms : List (Mark ℕ)) (s : StreamEncoder) : Prop where
  running : s.finished = false → Tracks ms s ∧ s.nextBlock + s.deferred.length ≤ u32Max
  ended : s.finished = true → WellFormed (· < ·) 2 ms

theorem Tracks.sideOnly (h : Tracks ms s) (hside : SideOnly s t) : Tracks ms t := by
  obtain ⟨c, m, r, g, p, rfl, _⟩ := hside
  exact ⟨h.shaped.congr rfl rfl rfl rfl rfl (fun _ _ hk => hk) h.shaped.deferred, h.silent⟩

theorem finish_streaming (h : Streaming ms s) :
    Streaming (ms ++ marks (finish sj s).1) (finish sj s).2 ∧ (finish sj s).2.finished = true := by
  unfold finish
  cases hfinished : s.finished with
  | true =>
    simp only [if_true]
    exact ⟨by simpa using h, hfinished⟩
  | false =>
    obtain ⟨htracks, hroom⟩ := h.running hfinished
    have hwire : s.wire = .messages := htracks.shaped.wire
    have hended : Tracks ms { s with finished := true } :=
      ⟨htracks.shaped.congr rfl rfl rfl rfl rfl (fun _ _ hk => hk) htracks.shaped.deferred,
        htracks.silent⟩
    obtain ⟨hwell, hdone⟩ := finishMessages_wellFormed sj hended hroom
    simp only [Bool.false_eq_true, if_false, hwire] at hwell hdone ⊢
    exact ⟨⟨fun hf => absurd (hdone.symm.trans hf) (by decide), fun _ => hwell⟩, hdone⟩

theorem hasMessagesArm_of_wired {ev : IrStreamEvent} (h : isWired .messages ev = true) :
    hasMessagesArm (customToolAsFunction ev) = true := by
  cases ev <;> first | rfl | simp [isWired, skippedOn] at h

theorem push_streaming {ev : IrStreamEvent} (h : Streaming ms s)
    (hplain : copiedVerbatim sj .messages ev = false) (hsafe : MessagesSafe s ev) :
    ∃ frames t, push sj s ev = .ok (frames, t) ∧ Streaming (ms ++ marks frames) t := by
  cases hfinished : s.finished with
  | true => exact ⟨_, _, push_finished hfinished, by simpa using h⟩
  | false =>
    obtain ⟨htracks, hroom⟩ := h.running hfinished
    have hwire : s.wire = .messages := htracks.shaped.wire
    obtain ⟨hcitation, hslot, hfit⟩ := hsafe hfinished
    cases push_cases hfinished (by rw [hwire]; exact hplain) with
    | @side itemType payload r hev hpush heffect =>
      subst hev
      rw [hpush]
      cases heffect with
      | quiet hside =>
        refine ⟨_, _, rfl, fun _ => ⟨by simpa using htracks.sideOnly hside, ?_⟩, fun hf => ?_⟩
        · obtain ⟨c, m, r, g, p, rfl, _⟩ := hside
          exact hroom
        · obtain ⟨c, m, r, g, p, rfl, _⟩ := hside
          rw [hfinished] at hf
          cases hf
      | citation _ hobj htype =>
        have hstarted := hcitation (by simp [isMessagesCitation, hobj, htype])
        have hshaped := htracks.shaped
        rw [if_pos hstarted] at hshaped
        obtain ⟨hdelta, hkept⟩ := blockDelta_shaped sj .text (citationsDeltaBody payload) hshaped
          (by omega)
        refine ⟨(blockDelta sj .text (citationsDeltaBody payload) s).1,
          (blockDelta sj .text (citationsDeltaBody payload) s).2, rfl,
          fun _ => ⟨.of_shaped hdelta (hkept.started.trans hstarted), ?_⟩, fun hf => ?_⟩
        · have := hkept.room
          omega
        · rw [hkept.finished, hfinished] at hf
          cases hf
      | reasoning hother => rw [hwire] at hother; cases hother
      | codePart hother => rw [hwire] at hother; cases hother
      | redacted blob hother => rw [hwire] at hother; cases hother
    | done hev hpush =>
      rw [hpush]
      exact ⟨_, _, rfl, (finish_streaming sj h).1⟩
    | skipped hskip hpush =>
      rw [hpush]
      exact ⟨_, _, rfl, by simpa using h⟩
    | wired hwired hpush =>
      rw [hwire] at hwired
      obtain ⟨frames, t, hok, ht, htfin, hgrow, _⟩ :=
        pushMessages_tracks sj htracks (hasMessagesArm_of_wired hwired) (by omega) hslot
      refine ⟨frames, t, by rw [hpush]; simpa only [pushWire, hwire] using hok,
        fun _ => ⟨ht, by omega⟩, fun hf => ?_⟩
      rw [htfin, hfinished] at hf
      cases hf

theorem new_streaming (model : String) : Streaming [] (StreamEncoder.new .messages model) where
  running := fun _ => by
    refine ⟨⟨?_, fun _ => rfl⟩, Nat.zero_le _⟩
    exact
      { wire := rfl
        serial := Serial.head
        starts_lt := by simp [StreamEncoder.new]
        held_lt := fun i x hx => by cases Std.TreeMap.getElem?_emptyc.symm.trans hx
        held_gt := fun i x hx => by cases Std.TreeMap.getElem?_emptyc.symm.trans hx
        apart := fun i j x y hx => by cases Std.TreeMap.getElem?_emptyc.symm.trans hx
        held_behind := fun i x hx => by cases Std.TreeMap.getElem?_emptyc.symm.trans hx
        routed := fun i enc hk => absurd hk (not_known_new i enc)
        deferred := fun ev he => by cases he
        fresh_lt := fun i enc hf => by cases hf
        fresh_gt := fun i enc hf => by cases hf
        fresh_held := fun i enc hf => by cases hf }
  ended := fun hf => by cases hf

/-- The Messages grammar over whole runs. -/
theorem messages_stream_grammar (model : String) (evs : List IrStreamEvent)
    (hplain : ∀ ev ∈ evs, copiedVerbatim sj .messages ev = false)
    (hsafe : StepsMeet (push sj) MessagesSafe (StreamEncoder.new .messages model) evs) :
    ∃ frames, encodeStream sj .messages model evs = .ok frames ∧
      WellFormed (· < ·) 2 (frames.map blockMark) := by
  obtain ⟨out, t, hrun, hstream⟩ := runAll_invariant (fun _ out t => Streaming (marks out) t)
    hsafe (new_streaming model) fun before ev after out t hevs hstream hstep => by
      obtain ⟨more, u, hok, hu⟩ := push_streaming sj hstream (hplain ev (by simp [hevs])) hstep
      exact ⟨more, u, hok, by simpa using hu⟩
  obtain ⟨hended, hfinished⟩ := finish_streaming sj hstream
  refine ⟨out ++ (finish sj t).1, by simp only [encodeStream, hrun, Except.map], ?_⟩
  simpa [marks] using hended.ended hfinished

end

/-- Text, a custom call and a citation. -/
theorem messages_stream_grammar_mixed :
    ∃ frames, encodeStream flatJson .messages "m" [.textDelta "a", .customToolCallStart "c" "f" 0,
        .customToolCallInputDelta "x" 0, .protocol "messages_citation" (.object []),
        .toolCallEnd] = .ok frames ∧ WellFormed (· < ·) 2 (frames.map blockMark) :=
  messages_stream_grammar flatJson "m" _ (by decide) (.of_allSteps (by decide))

/-- A citation that comes first opens its block before `message_start`. -/
theorem messages_citation_first :
    copiedVerbatim flatJson .messages (.protocol "messages_citation" (.object [])) = false ∧
      ¬ ∃ frames, encodeStream flatJson .messages "m"
          [.protocol "messages_citation" (.object [])] = .ok frames ∧
        WellFormed (· < ·) 2 (frames.map blockMark) := by
  refine ⟨rfl, ?_⟩
  rintro ⟨frames, hframes, hwell⟩
  have hmarks : frames.map blockMark =
      [.start 0, .delta 0, .head, .stop 0, .tail 0, .tail 1] := by
    obtain rfl := Except.ok.inj hframes
    rfl
  obtain ⟨rest, hrest, _⟩ := hwell.head_first
  rw [hmarks] at hrest
  cases hrest

end Wiremux.MessagesGrammar
