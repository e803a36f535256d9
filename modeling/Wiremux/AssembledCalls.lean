import Wiremux.AssemblerSlots

set_option autoImplicit false

/-!
# What the assembler gives out

Nothing is lost or made up: the arguments of an index come out as they went in,
behind its one start. Only where a finish or the end comes before an id or a
name is known do they come out alone.
-/
namespace Wiremux.AssembledCalls
open StreamEvents ToolAssembly TerminalEvents AssemblerSlots

def startAt? (i : ℕ) : IrStreamEvent → Option (String × String)
  | .toolCallStart id name _ index => if index = i then some (id, name) else none
  | _ => none

def deltaAt? (i : ℕ) : IrStreamEvent → Option String
  | .toolCallArgDelta delta index => if index = i then some delta else none
  | _ => none

/-- Id and name of the starts at an index. -/
def startsAt (i : ℕ) (evs : List IrStreamEvent) : List (String × String) := evs.filterMap (startAt? i)

def deltasAt (i : ℕ) (evs : List IrStreamEvent) : List String := evs.filterMap (deltaAt? i)

variable {i : ℕ} {evs seen out : List IrStreamEvent} {ev : IrStreamEvent} {d : String}

@[simp] theorem startsAt_nil : startsAt i [] = [] := rfl

@[simp] theorem deltasAt_nil : deltasAt i [] = [] := rfl

@[simp] theorem startsAt_append (as bs : List IrStreamEvent) :
    startsAt i (as ++ bs) = startsAt i as ++ startsAt i bs := List.filterMap_append

@[simp] theorem deltasAt_append (as bs : List IrStreamEvent) :
    deltasAt i (as ++ bs) = deltasAt i as ++ deltasAt i bs := List.filterMap_append

theorem startsAt_single (ev : IrStreamEvent) : startsAt i [ev] = (startAt? i ev).toList := by
  cases h : startAt? i ev <;> simp [startsAt, h]

theorem deltasAt_single (ev : IrStreamEvent) : deltasAt i [ev] = (deltaAt? i ev).toList := by
  cases h : deltaAt? i ev <;> simp [deltasAt, h]

theorem not_part (h : isPartAt i ev = false) : startAt? i ev = none ∧ deltaAt? i ev = none := by
  cases ev with
  | toolCallStart id name sig j =>
    have hj : ¬ j = i := by simpa [isPartAt] using h
    exact ⟨if_neg hj, rfl⟩
  | toolCallArgDelta delta j =>
    have hj : ¬ j = i := by simpa [isPartAt] using h
    exact ⟨rfl, if_neg hj⟩
  | _ => exact ⟨rfl, rfl⟩

theorem startsAt_parts (evs : List IrStreamEvent) : startsAt i (partsAt i evs) = startsAt i evs := by
  induction evs with
  | nil => rfl
  | cons ev evs ih =>
    cases hpart : isPartAt i ev with
    | true => simp_all [startsAt, partsAt, List.filterMap_cons]
    | false => simp_all [startsAt, partsAt, (not_part hpart).1]

theorem deltasAt_parts (evs : List IrStreamEvent) : deltasAt i (partsAt i evs) = deltasAt i evs := by
  induction evs with
  | nil => rfl
  | cons ev evs ih =>
    cases hpart : isPartAt i ev with
    | true => simp_all [deltasAt, partsAt, List.filterMap_cons]
    | false => simp_all [deltasAt, partsAt, (not_part hpart).2]

def IdKnown (i : ℕ) (evs : List IrStreamEvent) : Prop := ∃ s ∈ startsAt i evs, s.1 ≠ ""

def NameKnown (i : ℕ) (evs : List IrStreamEvent) : Prop := ∃ s ∈ startsAt i evs, s.2 ≠ ""

/-- The start of the index is out: id and name were there, or one of them at a finish. -/
def Released (i : ℕ) (evs : List IrStreamEvent) : Prop :=
  (IdKnown i evs ∧ NameKnown i evs) ∨
    ∃ head e tail, evs = head ++ e :: tail ∧ isEnd e = true ∧ (IdKnown i head ∨ NameKnown i head)

/-- The argument with `k` of its index in front came in, and then a finish,
before an id or a name did. -/
def Headless (i k : ℕ) (evs : List IrStreamEvent) : Prop :=
  ∃ before e after, evs = before ++ e :: after ∧ isEnd e = true ∧
    ¬ IdKnown i before ∧ ¬ NameKnown i before ∧ k < (deltasAt i before).length

theorem Headless.append {k : ℕ} (h : Headless i k evs) (bs : List IrStreamEvent) :
    Headless i k (evs ++ bs) := by
  obtain ⟨before, e, after, rfl, hend, hrest⟩ := h
  exact ⟨before, e, after ++ bs, by rw [List.append_assoc, List.cons_append], hend, hrest⟩

theorem idKnown_append (bs : List IrStreamEvent) :
    IdKnown i (evs ++ bs) ↔ IdKnown i evs ∨ IdKnown i bs := by
  simp only [IdKnown, startsAt_append, List.mem_append, or_and_right, exists_or]

theorem nameKnown_append (bs : List IrStreamEvent) :
    NameKnown i (evs ++ bs) ↔ NameKnown i evs ∨ NameKnown i bs := by
  simp only [NameKnown, startsAt_append, List.mem_append, or_and_right, exists_or]

theorem not_known_of_none (h : startAt? i ev = none) : ¬ IdKnown i [ev] ∧ ¬ NameKnown i [ev] := by
  simp [IdKnown, NameKnown, startsAt_single, h]

theorem known_start {id name : String} {sig : Option String} :
    (IdKnown i [.toolCallStart id name sig i] ↔ id ≠ "") ∧
      (NameKnown i [.toolCallStart id name sig i] ↔ name ≠ "") := by
  simp [IdKnown, NameKnown, startsAt_single, startAt?]

theorem Released.append (h : Released i evs) (bs : List IrStreamEvent) : Released i (evs ++ bs) := by
  rcases h with ⟨hid, hname⟩ | ⟨head, e, tail, rfl, hend, hknown⟩
  · exact .inl ⟨(idKnown_append _).mpr (.inl hid), (nameKnown_append _).mpr (.inl hname)⟩
  · refine .inr ⟨head, e, tail ++ bs, ?_, hend, hknown⟩
    rw [List.append_assoc, List.cons_append]

theorem released_snoc : Released i (seen ++ [ev]) ↔ Released i seen ∨
    (IdKnown i (seen ++ [ev]) ∧ NameKnown i (seen ++ [ev])) ∨
    (isEnd ev = true ∧ (IdKnown i seen ∨ NameKnown i seen)) := by
  constructor
  · rintro (hknown | ⟨head, e, tail, heq, hend, hknown⟩)
    · exact .inr (.inl hknown)
    · rcases List.eq_nil_or_concat tail with rfl | ⟨tail, last, rfl⟩
      · obtain ⟨rfl, hlast⟩ := List.append_inj' heq rfl
        obtain rfl := List.singleton_inj.mp hlast
        exact .inr (.inr ⟨hend, hknown⟩)
      · rw [List.concat_eq_append, ← List.cons_append, ← List.append_assoc] at heq
        obtain ⟨hseen, _⟩ := List.append_inj' heq rfl
        exact .inl (.inr ⟨head, e, tail, hseen, hend, hknown⟩)
  · rintro (hseen | hknown | ⟨hend, hknown⟩)
    · exact hseen.append [ev]
    · exact .inl hknown
    · exact .inr ⟨seen, ev, [], rfl, hend, hknown⟩

theorem startsAt_deltas (args : List String) :
    startsAt i (args.map fun delta => .toolCallArgDelta delta i) = [] := by
  rw [startsAt, List.filterMap_map, List.filterMap_eq_nil_iff]
  intro delta _
  rfl

theorem deltasAt_deltas (args : List String) :
    deltasAt i (args.map fun delta => .toolCallArgDelta delta i) = args := by
  induction args with
  | nil => rfl
  | cons delta rest ih =>
    have hhead : deltaAt? i (.toolCallArgDelta delta i) = some delta := if_pos rfl
    rw [List.map_cons, deltasAt, List.filterMap_cons, hhead]
    exact congrArg (delta :: ·) ih

theorem intoEvents_named {p : PendingToolStart} (h : p.isNamed = true) : p.intoEvents =
    .toolCallStart p.id p.name p.thoughtSignature p.index ::
      p.args.map fun delta => .toolCallArgDelta delta p.index := by
  rw [PendingToolStart.intoEvents, if_pos h]
  rfl

theorem intoEvents_unnamed {p : PendingToolStart} (h : p.isNamed = false) :
    p.intoEvents = p.args.map fun delta => .toolCallArgDelta delta p.index := by
  rw [PendingToolStart.intoEvents, h]
  rfl

theorem isNamed_iff (p : PendingToolStart) : p.isNamed = true ↔ p.id ≠ "" ∨ p.name ≠ "" := by
  simp [PendingToolStart.isNamed]

theorem startsAt_intoEvents {p : PendingToolStart} (hindex : p.index = i) :
    startsAt i p.intoEvents = if p.isNamed then [(p.id, p.name)] else [] := by
  subst hindex
  cases h : p.isNamed with
  | true =>
    have hstart : startAt? p.index (.toolCallStart p.id p.name p.thoughtSignature p.index) =
        some (p.id, p.name) := if_pos rfl
    have hrest := startsAt_deltas (i := p.index) p.args
    rw [intoEvents_named h, startsAt, List.filterMap_cons, hstart, ← startsAt, hrest]
    rfl
  | false =>
    rw [intoEvents_unnamed h, startsAt_deltas]
    rfl

theorem deltasAt_intoEvents {p : PendingToolStart} (hindex : p.index = i) :
    deltasAt i p.intoEvents = p.args := by
  subst hindex
  cases h : p.isNamed with
  | true =>
    have hstart : deltaAt? p.index (.toolCallStart p.id p.name p.thoughtSignature p.index) = none := rfl
    rw [intoEvents_named h, deltasAt, List.filterMap_cons, hstart, ← deltasAt, deltasAt_deltas]
  | false => rw [intoEvents_unnamed h, deltasAt_deltas]

/-- Every argument is behind a start, or headless. -/
def Led (i : ℕ) (seen out : List IrStreamEvent) : Prop :=
  ∀ pre d post, out = pre ++ .toolCallArgDelta d i :: post → startsAt i pre = [] →
    Headless i (deltasAt i pre).length seen

theorem Led.append {new : List IrStreamEvent} (h : Led i seen out)
    (hnew : ∀ pre d post, new = pre ++ .toolCallArgDelta d i :: post → startsAt i out = [] →
      startsAt i pre = [] → Headless i (deltasAt i (out ++ pre)).length (seen ++ [ev])) :
    Led i (seen ++ [ev]) (out ++ new) := by
  intro pre d post heq hpre
  rcases List.append_eq_append_iff.mp heq with ⟨mid, rfl, hmid⟩ | ⟨mid, rfl, hmid⟩
  · rw [startsAt_append, List.append_eq_nil_iff] at hpre
    exact hnew mid d post hmid hpre.1 hpre.2
  · cases mid with
    | nil =>
      have hhead := hnew [] d post hmid.symm (by rwa [List.append_nil]) rfl
      rwa [List.append_nil, List.append_nil] at hhead
    | cons first mid =>
      obtain ⟨rfl, _⟩ := List.cons.inj hmid
      exact (h pre d mid rfl hpre).append [ev]

theorem led_behind_start {id name : String} {sig : Option String} {rest pre post : List IrStreamEvent}
    (h : .toolCallStart id name sig i :: rest = pre ++ .toolCallArgDelta d i :: post) :
    startsAt i pre ≠ [] := by
  cases pre with
  | nil => cases (List.cons.inj h).1
  | cons first pre =>
    obtain ⟨rfl, _⟩ := List.cons.inj h
    have hstart : startAt? i (.toolCallStart id name sig i) = some (id, name) := if_pos rfl
    rw [startsAt, List.filterMap_cons, hstart]
    exact List.cons_ne_nil _ _

def heldId : Slot → String
  | .held p => p.id
  | _ => ""

def heldName : Slot → String
  | .held p => p.name
  | _ => ""

def heldArgs : Slot → List String
  | .held p => p.args
  | _ => []

/-- Before the start: what came in is held. -/
structure Waiting (i : ℕ) (seen out : List IrStreamEvent) (s : Slot) : Prop where
  index : ∀ p, s = .held p → p.index = i
  deltas : deltasAt i out ++ heldArgs s = deltasAt i seen
  starts : startsAt i out = []
  unreleased : ¬ Released i seen
  idKnown : IdKnown i seen → heldId s ≠ ""
  nameKnown : heldName s ≠ "" ↔ NameKnown i seen
  origin : heldId s ≠ "" → ∃ x ∈ startsAt i seen, x.1 = heldId s
  led : Led i seen out

structure Begun (i : ℕ) (seen out : List IrStreamEvent) : Prop where
  deltas : deltasAt i out = deltasAt i seen
  start : ∃ start, startsAt i out = [start] ∧
    (start.1 ≠ "" → ∃ x ∈ startsAt i seen, x.1 = start.1)
  released : Released i seen
  led : Led i seen out

def SlotRun (i : ℕ) (seen out : List IrStreamEvent) : Slot → Prop
  | .started => Begun i seen out
  | s => Waiting i seen out s

theorem Waiting.idKnown_iff {s : Slot} (h : Waiting i seen out s) : heldId s ≠ "" ↔ IdKnown i seen := by
  constructor
  · intro hid
    obtain ⟨x, hx, heq⟩ := h.origin hid
    exact ⟨x, hx, heq ▸ hid⟩
  · exact h.idKnown

theorem waiting_new : Waiting i [] [] .idle where
  index := nofun
  deltas := rfl
  starts := rfl
  unreleased := by
    rintro (⟨⟨x, hx, _⟩, _⟩ | ⟨head, e, tail, heq, _⟩)
    · cases hx
    · simp at heq
  idKnown := by
    rintro ⟨x, hx, _⟩
    cases hx
  nameKnown := by simp [heldName, NameKnown]
  origin := fun h => absurd rfl h
  led := by
    intro pre d post heq
    simp at heq

theorem Begun.quiet (h : Begun i seen out) (hdelta : deltaAt? i ev = none) :
    Begun i (seen ++ [ev]) out := by
  refine ⟨?_, ?_, released_snoc.mpr (.inl h.released), ?_⟩
  · rw [deltasAt_append, deltasAt_single, hdelta, h.deltas, Option.toList_none, List.append_nil]
  · obtain ⟨start, hout, horigin⟩ := h.start
    refine ⟨start, hout, ?_⟩
    intro hid
    obtain ⟨x, hx, heq⟩ := horigin hid
    exact ⟨x, by rw [startsAt_append]; exact List.mem_append_left _ hx, heq⟩
  · intro pre d post heq hpre
    exact (h.led pre d post heq hpre).append [ev]

theorem Begun.delta (h : Begun i seen out) (d : String) :
    Begun i (seen ++ [.toolCallArgDelta d i]) (out ++ [.toolCallArgDelta d i]) := by
  have hstart : startAt? i (.toolCallArgDelta d i) = none := rfl
  refine ⟨?_, ?_, released_snoc.mpr (.inl h.released), ?_⟩
  · rw [deltasAt_append, deltasAt_append, h.deltas]
  · obtain ⟨start, hout, horigin⟩ := h.start
    refine ⟨start, ?_, ?_⟩
    · rw [startsAt_append, startsAt_single, hstart, hout]
      rfl
    · intro hid
      obtain ⟨x, hx, heq⟩ := horigin hid
      exact ⟨x, by rw [startsAt_append]; exact List.mem_append_left _ hx, heq⟩
  · refine h.led.append ?_
    intro pre e post _ hout
    obtain ⟨start, hone, _⟩ := h.start
    rw [hout] at hone
    cases hone

theorem Waiting.quiet {s : Slot} (h : Waiting i seen out s) (hstart : startAt? i ev = none)
    (hdelta : deltaAt? i ev = none) (hend : isEnd ev = true → heldId s = "" ∧ heldName s = "") :
    Waiting i (seen ++ [ev]) out s := by
  obtain ⟨hid, hname⟩ := not_known_of_none hstart
  have hids : IdKnown i (seen ++ [ev]) ↔ IdKnown i seen := by
    rw [idKnown_append]
    exact or_iff_left hid
  have hnames : NameKnown i (seen ++ [ev]) ↔ NameKnown i seen := by
    rw [nameKnown_append]
    exact or_iff_left hname
  have hstarts : startsAt i (seen ++ [ev]) = startsAt i seen := by
    rw [startsAt_append, startsAt_single, hstart, Option.toList_none, List.append_nil]
  refine ⟨h.index, ?_, h.starts, ?_, fun hk => h.idKnown (hids.mp hk), h.nameKnown.trans hnames.symm,
    hstarts ▸ h.origin, ?_⟩
  · rw [deltasAt_append, deltasAt_single, hdelta, h.deltas, Option.toList_none, List.append_nil]
  · rw [released_snoc, hids, hnames]
    rintro (hseen | hknown | ⟨he, hknown⟩)
    · exact h.unreleased hseen
    · exact h.unreleased (.inl hknown)
    · obtain ⟨hnoid, hnoname⟩ := hend he
      rcases hknown with hknown | hknown
      · exact h.idKnown hknown hnoid
      · exact h.nameKnown.mpr hknown hnoname
  · intro pre d post heq hpre
    exact (h.led pre d post heq hpre).append [ev]

theorem Waiting.delta {s t : Slot} (h : Waiting i seen out s) (d : String)
    (hindex : ∀ p, t = .held p → p.index = i) (hargs : heldArgs t = heldArgs s ++ [d])
    (hid : heldId t = heldId s) (hname : heldName t = heldName s) :
    Waiting i (seen ++ [.toolCallArgDelta d i]) out t := by
  have hstart : startAt? i (.toolCallArgDelta d i) = none := rfl
  have hdelta : deltaAt? i (.toolCallArgDelta d i) = some d := if_pos rfl
  obtain ⟨hnoid, hnoname⟩ := not_known_of_none hstart
  have hids : IdKnown i (seen ++ [.toolCallArgDelta d i]) ↔ IdKnown i seen := by
    rw [idKnown_append]
    exact or_iff_left hnoid
  have hnames : NameKnown i (seen ++ [.toolCallArgDelta d i]) ↔ NameKnown i seen := by
    rw [nameKnown_append]
    exact or_iff_left hnoname
  have hstarts : startsAt i (seen ++ [.toolCallArgDelta d i]) = startsAt i seen := by
    rw [startsAt_append, startsAt_single, hstart, Option.toList_none, List.append_nil]
  refine ⟨hindex, ?_, h.starts, ?_, ?_, ?_, ?_, ?_⟩
  · rw [deltasAt_append, deltasAt_single, hdelta, hargs, ← List.append_assoc, h.deltas]
    rfl
  · rw [released_snoc, hids, hnames]
    rintro (hseen | hknown | ⟨he, _⟩)
    · exact h.unreleased hseen
    · exact h.unreleased (.inl hknown)
    · cases he
  · rw [hids, hid]
    exact h.idKnown
  · rw [hnames, hname]
    exact h.nameKnown
  · rw [hstarts, hid]
    exact h.origin
  · intro pre e post heq hpre
    exact (h.led pre e post heq hpre).append _

theorem merged_fields (s : Slot) (id name : String) (sig : Option String) :
    (s.merged id name sig i).id = (if id = "" then heldId s else id) ∧
      (s.merged id name sig i).name = (if name = "" then heldName s else name) ∧
      (s.merged id name sig i).args = heldArgs s ∧ (s.merged id name sig i).index = i := by
  cases s with
  | held p => simp [Slot.merged, heldId, heldName, heldArgs]
  | _ => simp [Slot.merged, heldId, heldName, heldArgs]

theorem Waiting.merged {s : Slot} (h : Waiting i seen out s) (id name : String) (sig : Option String) :
    (IdKnown i (seen ++ [.toolCallStart id name sig i]) ↔ (s.merged id name sig i).id ≠ "") ∧
      (NameKnown i (seen ++ [.toolCallStart id name sig i]) ↔ (s.merged id name sig i).name ≠ "") ∧
      ((s.merged id name sig i).id ≠ "" →
        ∃ x ∈ startsAt i (seen ++ [.toolCallStart id name sig i]), x.1 = (s.merged id name sig i).id) := by
  obtain ⟨hid, hname, _, _⟩ := merged_fields (i := i) s id name sig
  have hstart : startAt? i (.toolCallStart id name sig i) = some (id, name) := if_pos rfl
  rw [idKnown_append, nameKnown_append, known_start.1, known_start.2, ← h.idKnown_iff, ← h.nameKnown,
    hid, hname, startsAt_append, startsAt_single, hstart]
  refine ⟨?_, ?_, ?_⟩
  · by_cases hempty : id = "" <;> simp [hempty]
  · by_cases hempty : name = "" <;> simp [hempty]
  · by_cases hempty : id = ""
    · rw [if_pos hempty]
      intro hheld
      obtain ⟨x, hx, heq⟩ := h.origin hheld
      exact ⟨x, List.mem_append_left _ hx, heq⟩
    · rw [if_neg hempty]
      exact fun _ => ⟨(id, name), List.mem_append_right _ (List.mem_singleton_self _), rfl⟩

theorem startsAt_waiting {s : Slot} (h : Waiting i seen out s) {p : PendingToolStart}
    (hindex : p.index = i) (hargs : p.args = heldArgs s) (hev : deltaAt? i ev = none) :
    deltasAt i (out ++ p.intoEvents) = deltasAt i (seen ++ [ev]) ∧
      startsAt i (out ++ p.intoEvents) = if p.isNamed then [(p.id, p.name)] else [] := by
  rw [deltasAt_append, deltasAt_intoEvents hindex, hargs, h.deltas, startsAt_append, h.starts,
    startsAt_intoEvents hindex, deltasAt_append, deltasAt_single, hev]
  simp

theorem Waiting.begun {s : Slot} (h : Waiting i seen out s) {p : PendingToolStart}
    (hindex : p.index = i) (hargs : p.args = heldArgs s) (hnamed : p.isNamed = true)
    (hev : deltaAt? i ev = none) (hreleased : Released i (seen ++ [ev]))
    (horigin : p.id ≠ "" → ∃ x ∈ startsAt i (seen ++ [ev]), x.1 = p.id) :
    Begun i (seen ++ [ev]) (out ++ p.intoEvents) := by
  obtain ⟨hdeltas, hstarts⟩ := startsAt_waiting h hindex hargs hev
  rw [if_pos hnamed] at hstarts
  refine ⟨hdeltas, ⟨_, hstarts, horigin⟩, hreleased, h.led.append ?_⟩
  intro pre d post heq _ hpre
  rw [intoEvents_named hnamed, hindex] at heq
  exact absurd hpre (led_behind_start heq)

theorem Waiting.start {s : Slot} (hs : s ≠ .started) (h : Waiting i seen out s) (id name : String)
    (sig : Option String) : SlotRun i (seen ++ [.toolCallStart id name sig i])
      (out ++ (s.pushStart id name sig i).1) (s.pushStart id name sig i).2 := by
  obtain ⟨hids, hnames, horigin⟩ := h.merged id name sig
  obtain ⟨_, _, hargs, hindex⟩ := merged_fields (i := i) s id name sig
  have hdelta : deltaAt? i (.toolCallStart id name sig i) = none := rfl
  rw [pushStart_not_started s hs]
  by_cases hhalf : (s.merged id name sig i).id.isEmpty || (s.merged id name sig i).name.isEmpty
  · rw [if_pos hhalf, List.append_nil]
    have hone : (s.merged id name sig i).id = "" ∨ (s.merged id name sig i).name = "" := by
      simpa using hhalf
    refine ⟨?_, ?_, h.starts, ?_, hids.mp, hnames.symm, horigin, ?_⟩
    · intro p hp
      obtain rfl := Slot.held.inj hp
      exact hindex
    · rw [deltasAt_append, deltasAt_single, hdelta, Option.toList_none, List.append_nil, ← h.deltas,
        ← hargs]
      rfl
    · rw [released_snoc, hids, hnames]
      rintro (hseen | ⟨hid, hname⟩ | ⟨he, _⟩)
      · exact h.unreleased hseen
      · exact hone.elim hid hname
      · cases he
    · intro pre d post heq hpre
      exact (h.led pre d post heq hpre).append _
  · rw [if_neg hhalf]
    have hboth : (s.merged id name sig i).id ≠ "" ∧ (s.merged id name sig i).name ≠ "" := by
      simpa using hhalf
    exact h.begun hindex hargs ((isNamed_iff _).mpr (.inl hboth.1)) hdelta
      (.inl ⟨hids.mpr hboth.1, hnames.mpr hboth.2⟩) horigin

theorem Waiting.flushed {s : Slot} (h : Waiting i seen out s) (hs : s ≠ .started)
    (hstart : startAt? i ev = none) (hdelta : deltaAt? i ev = none) (hend : isEnd ev = true) :
    SlotRun i (seen ++ [ev]) (out ++ s.flush.1) s.flush.2 := by
  cases s with
  | started => exact absurd rfl hs
  | idle =>
    rw [Slot.flush, List.append_nil]
    exact h.quiet hstart hdelta fun _ => ⟨rfl, rfl⟩
  | held p =>
    have hindex := h.index p rfl
    have hknown : p.isNamed = true ↔ IdKnown i seen ∨ NameKnown i seen := by
      rw [isNamed_iff]
      exact or_congr h.idKnown_iff h.nameKnown
    cases hnamed : p.isNamed with
    | true =>
      simp only [Slot.flush, hnamed, if_true]
      refine h.begun hindex rfl hnamed hdelta ?_ ?_
      · exact released_snoc.mpr (.inr (.inr ⟨hend, hknown.mp hnamed⟩))
      · intro hid
        obtain ⟨x, hx, heq⟩ := h.origin hid
        exact ⟨x, by rw [startsAt_append]; exact List.mem_append_left _ hx, heq⟩
    | false =>
      have hunknown : ¬ IdKnown i seen ∧ ¬ NameKnown i seen := by
        rw [← not_or, ← hknown, hnamed]
        simp
      obtain ⟨hnoid, hnoname⟩ := not_known_of_none hstart
      have hids : ¬ IdKnown i (seen ++ [ev]) := by
        rw [idKnown_append]
        exact not_or.mpr ⟨hunknown.1, hnoid⟩
      have hnames : ¬ NameKnown i (seen ++ [ev]) := by
        rw [nameKnown_append]
        exact not_or.mpr ⟨hunknown.2, hnoname⟩
      obtain ⟨hdeltas, hstarts⟩ := startsAt_waiting h hindex rfl hdelta
      rw [hnamed] at hstarts
      simp only [Slot.flush, hnamed, Bool.false_eq_true, if_false]
      refine ⟨(fun _ hp => by cases hp), ?_, hstarts, ?_, fun hk => absurd hk hids, ?_, fun hk => absurd rfl hk, ?_⟩
      · rw [hdeltas]
        exact List.append_nil _
      · rw [released_snoc]
        rintro (hseen | ⟨hid, _⟩ | ⟨_, hid | hname⟩)
        · exact h.unreleased hseen
        · exact hids hid
        · exact hunknown.1 hid
        · exact hunknown.2 hname
      · exact iff_of_false (fun hk => hk rfl) hnames
      · refine h.led.append ?_
        intro pre d post heq _ _
        refine ⟨seen, ev, [], rfl, hend, hunknown.1, hunknown.2, ?_⟩
        have hself : deltaAt? i (.toolCallArgDelta d i) = some d := if_pos rfl
        have hargs : p.args = deltasAt i pre ++ d :: deltasAt i post := by
          rw [← deltasAt_intoEvents hindex, heq, deltasAt_append, deltasAt, deltasAt,
            List.filterMap_cons, hself]
          rfl
        rw [← h.deltas, heldArgs, hargs, deltasAt_append]
        simp

theorem SlotRun.quiet {s : Slot} (h : SlotRun i seen out s) (hstart : startAt? i ev = none)
    (hdelta : deltaAt? i ev = none) (hend : isEnd ev = false) : SlotRun i (seen ++ [ev]) out s := by
  cases s with
  | started => exact Begun.quiet h hdelta
  | idle => exact Waiting.quiet h hstart hdelta (by simp [hend])
  | held p => exact Waiting.quiet h hstart hdelta (by simp [hend])

theorem SlotRun.flushed {s : Slot} (h : SlotRun i seen out s) (hstart : startAt? i ev = none)
    (hdelta : deltaAt? i ev = none) (hend : isEnd ev = true) :
    SlotRun i (seen ++ [ev]) (out ++ s.flush.1) s.flush.2 := by
  cases s with
  | started =>
    rw [Slot.flush, List.append_nil]
    exact Begun.quiet h hdelta
  | idle => exact Waiting.flushed h (by simp) hstart hdelta hend
  | held p => exact Waiting.flushed h (by simp) hstart hdelta hend

theorem SlotRun.start {s : Slot} (h : SlotRun i seen out s) (id name : String) (sig : Option String) :
    SlotRun i (seen ++ [.toolCallStart id name sig i])
      (out ++ (Slot.push i s (.toolCallStart id name sig i)).1)
      (Slot.push i s (.toolCallStart id name sig i)).2 := by
  rw [Slot.push, if_pos rfl]
  cases s with
  | started =>
    rw [Slot.pushStart, List.append_nil]
    exact Begun.quiet h rfl
  | idle => exact Waiting.start (s := .idle) (by simp) h id name sig
  | held p => exact Waiting.start (s := .held p) (by simp) h id name sig

theorem SlotRun.delta {s : Slot} (h : SlotRun i seen out s) (d : String) :
    SlotRun i (seen ++ [.toolCallArgDelta d i])
      (out ++ (Slot.push i s (.toolCallArgDelta d i)).1)
      (Slot.push i s (.toolCallArgDelta d i)).2 := by
  rw [Slot.push, if_pos rfl]
  cases s with
  | started => exact Begun.delta h d
  | idle =>
    rw [Slot.pushArgs, List.append_nil]
    refine Waiting.delta h d ?_ rfl rfl rfl
    intro p hp
    obtain rfl := Slot.held.inj hp
    rfl
  | held p =>
    rw [Slot.pushArgs, List.append_nil]
    refine Waiting.delta h d ?_ rfl rfl rfl
    intro q hq
    obtain rfl := Slot.held.inj hq
    exact Waiting.index h p rfl

theorem slotRun_push {s : Slot} (h : SlotRun i seen out s) (ev : IrStreamEvent) :
    SlotRun i (seen ++ [ev]) (out ++ (Slot.push i s ev).1) (Slot.push i s ev).2 := by
  cases hpart : isFunctionCallPart ev with
  | false =>
    have hnone : startAt? i ev = none ∧ deltaAt? i ev = none := by
      cases ev <;> first | exact ⟨rfl, rfl⟩ | cases hpart
    rw [(push_other (a := {}) (i := i) hpart).2 s]
    cases hend : isEnd ev with
    | true =>
      rw [if_pos rfl]
      exact h.flushed hnone.1 hnone.2 hend
    | false =>
      rw [if_neg (by simp), List.append_nil]
      exact h.quiet hnone.1 hnone.2 hend
  | true =>
    cases ev with
    | toolCallStart id name sig j =>
      by_cases hij : j = i
      · subst hij
        exact h.start id name sig
      · rw [Slot.push, if_neg hij, List.append_nil]
        exact h.quiet (if_neg hij) rfl rfl
    | toolCallArgDelta d j =>
      by_cases hij : j = i
      · subst hij
        exact h.delta d
      · rw [Slot.push, if_neg hij, List.append_nil]
        exact h.quiet rfl (if_neg hij) rfl
    | _ => cases hpart

theorem slotRun_pushAll {s : Slot} (h : SlotRun i seen out s) (evs : List IrStreamEvent) :
    SlotRun i (seen ++ evs) (out ++ (Slot.pushAll i s evs).1) (Slot.pushAll i s evs).2 := by
  induction evs generalizing seen out s with
  | nil =>
    rw [Slot.pushAll, List.append_nil, List.append_nil]
    exact h
  | cons ev evs ih =>
    have hrest := ih (slotRun_push h ev)
    rw [List.append_assoc, List.append_assoc] at hrest
    exact hrest

/-- All events that come out: those of every push, and of the flush at the end. -/
def assembled (evs : List IrStreamEvent) : List IrStreamEvent :=
  (ToolCallAssembler.pushAll {} evs).1 ++ (ToolCallAssembler.pushAll {} evs).2.flush.1

theorem slotOf_new (i : ℕ) : slotOf {} i = .idle := by
  rw [slotOf_idle (by simp) (by simp)]

theorem slotRun_new (evs : List IrStreamEvent) :
    SlotRun i evs (partsAt i (ToolCallAssembler.pushAll {} evs).1)
      (slotOf (ToolCallAssembler.pushAll {} evs).2 i) := by
  obtain ⟨_, hparts, hslot⟩ := pushAll_slot (i := i) keyed_new evs
  have hrun := slotRun_pushAll (s := .idle) (waiting_new (i := i)) evs
  rw [hparts, hslot, slotOf_new]
  exact hrun

theorem flush_empties (s : Slot) : s.flush.2 = .started ∨ s.flush.2 = .idle := by
  cases s with
  | idle => exact .inr rfl
  | started => exact .inl rfl
  | held p =>
    cases hnamed : p.isNamed with
    | true => exact .inl (by simp [Slot.flush, hnamed])
    | false => exact .inr (by simp [Slot.flush, hnamed])

/-- At the end, which is one more `Done`, every index has begun or is idle. -/
theorem assembled_run (i : ℕ) (evs : List IrStreamEvent) :
    Begun i (evs ++ [.done]) (partsAt i (assembled evs)) ∨
      Waiting i (evs ++ [.done]) (partsAt i (assembled evs)) .idle := by
  have hkeyed := (pushAll_slot (i := i) keyed_new evs).1
  have hrun := slotRun_push (slotRun_new (i := i) evs) .done
  have hpush : ∀ s : Slot, Slot.push i s .done = s.flush := fun _ => rfl
  rw [hpush, ← flush_slot hkeyed, ← partsAt_append, ← assembled] at hrun
  rcases flush_empties (slotOf (ToolCallAssembler.pushAll {} evs).2 i) with h | h
  · rw [h] at hrun
    exact .inl hrun
  · rw [h] at hrun
    exact .inr hrun

theorem deltasAt_assembled (evs : List IrStreamEvent) :
    deltasAt i (assembled evs) = deltasAt i evs := by
  have hdone : deltasAt i (evs ++ [.done]) = deltasAt i evs := by
    have hnone : deltaAt? i .done = none := rfl
    rw [deltasAt_append, deltasAt_single, hnone, Option.toList_none, List.append_nil]
  rcases assembled_run i evs with h | h
  · rw [← deltasAt_parts, h.deltas, hdone]
  · have hempty : heldArgs .idle = [] := rfl
    rw [← deltasAt_parts, ← hdone, ← h.deltas, hempty, List.append_nil]

theorem startsAt_assembled (evs : List IrStreamEvent) : (startsAt i (assembled evs)).length ≤ 1 := by
  rw [← startsAt_parts]
  rcases assembled_run i evs with h | h
  · obtain ⟨start, hstart, _⟩ := h.start
    rw [hstart]
    exact le_rfl
  · rw [h.starts]
    exact Nat.zero_le 1

theorem led_assembled {evs pre post : List IrStreamEvent}
    (h : assembled evs = pre ++ .toolCallArgDelta d i :: post) (hpre : startsAt i pre = []) :
    Headless i (deltasAt i pre).length (evs ++ [.done]) := by
  have hself : isPartAt i (.toolCallArgDelta d i) = true := decide_eq_true rfl
  have hparts : partsAt i (assembled evs) =
      partsAt i pre ++ .toolCallArgDelta d i :: partsAt i post := by
    rw [h, partsAt_append, partsAt, partsAt, List.filter_cons_of_pos hself]
    rfl
  rw [← startsAt_parts] at hpre
  rw [← deltasAt_parts pre]
  rcases assembled_run i evs with hrun | hrun
  · exact hrun.led _ d _ hparts hpre
  · exact hrun.led _ d _ hparts hpre

theorem passed_assembled (evs : List IrStreamEvent) : passed (assembled evs) = passed evs := by
  rw [assembled, passed_append, passed_pushAll, passed_flush, List.append_nil]

theorem startsAt_push (a : ToolCallAssembler) (hend : isEnd ev = false) :
    ∀ s ∈ startsAt i (a.push ev).1, s.1 ≠ "" ∧ s.2 ≠ "" := by
  intro s hs
  unfold ToolCallAssembler.push at hs
  split at hs
  · rename_i id name sig j
    unfold ToolCallAssembler.pushStart at hs
    split at hs
    · cases hs
    · simp only at hs
      split at hs
      · cases hs
      · rename_i hwhole
        generalize a.mergedStart id name sig j = p at hs hwhole
        rw [← startsAt_parts, partsAt_intoEvents] at hs
        split at hs
        · rename_i hindex
          rw [startsAt_intoEvents hindex] at hs
          split at hs
          · rw [List.mem_singleton.mp hs]
            simpa using hwhole
          · cases hs
        · cases hs
  · rename_i delta j
    unfold ToolCallAssembler.pushArgs at hs
    split at hs
    · cases hs
    · split at hs
      · rw [startsAt_single] at hs
        cases hs
      · cases hs
  · rw [hend] at hs
    rename_i hstart _
    rw [if_neg (by simp), startsAt_single] at hs
    cases ev <;> first | cases hs | exact absurd rfl (hstart _ _ _ _)

/-- Every other event comes out as it went in, and so do the arguments of every
index, behind its one start; and before a finish a start has both id and name.
Only an argument that a finish or the end met before an id or a name was known
comes out with no start in front of it. -/
theorem assembler_conserves_calls (evs : List IrStreamEvent) :
    passed (assembled evs) = passed evs ∧
    (∀ i, deltasAt i (assembled evs) = deltasAt i evs) ∧
    (∀ i, (startsAt i (assembled evs)).length ≤ 1) ∧
    (∀ before ev after, evs = before ++ ev :: after → isEnd ev = false →
      ∀ i, ∀ s ∈ startsAt i ((ToolCallAssembler.pushAll {} before).2.push ev).1,
        s.1 ≠ "" ∧ s.2 ≠ "") ∧
    ∀ pre d i post, assembled evs = pre ++ .toolCallArgDelta d i :: post → startsAt i pre = [] →
      Headless i (deltasAt i pre).length (evs ++ [.done]) := by
  refine ⟨passed_assembled evs, fun _ => deltasAt_assembled evs, fun _ => startsAt_assembled evs, ?_, ?_⟩
  · intro before ev after _ hend i
    exact startsAt_push _ hend
  · intro pre d i post h hpre
    exact led_assembled h hpre

def finishedEarly : List IrStreamEvent :=
  [.toolCallArgDelta "x" 0, .finishReason "tool_calls" none, .toolCallStart "a" "f" none 0]

/-- The fragment comes out before the start. -/
theorem delta_before_start : ¬ ∀ (evs pre : List IrStreamEvent) (d : String) (i : ℕ)
    (post : List IrStreamEvent), assembled evs = pre ++ .toolCallArgDelta d i :: post →
      startsAt i post = [] := by
  intro h
  have hout : assembled finishedEarly = finishedEarly := rfl
  have hpost := h finishedEarly [] "x" 0 _ hout
  simp [startsAt, startAt?] at hpost

end Wiremux.AssembledCalls
