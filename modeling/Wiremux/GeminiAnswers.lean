import Wiremux.GeminiResponses

set_option autoImplicit false

/-!
# Responses of a whole request

From the parts to the contents and the body: the responses have the ids that are
meant exactly when each of them is in reach.
-/
namespace Wiremux.GeminiAnswers
open JsonValue RequestParts MessagesItems GeminiContents GeminiMatching GeminiCallIds GeminiResponses

variable {d : Decoding} {i : Intent} {w : Watch}

structure Agree (d : Decoding) (i : Intent) (w : Watch) : Prop where
  now : d = i.now
  rel : Rel i w
  ok : w.ok = true

/-- The items differ, and will go on to. -/
structure Differ (d : Decoding) (i : Intent) (w : Watch) : Prop where
  model : d.model = i.now.model
  textParts : d.textParts = i.now.textParts
  length : d.items.length = i.now.items.length
  items : d.items ≠ i.now.items
  ok : w.ok = false

def Valid (i : Intent) : Piece → Prop
  | .call id _ _ _ => id = none ∧ i.now.model = true
  | .response id name _ _ => id = none ∧ Answerable i name
  | .shown _ => True

theorem append_ne {first second : List IrItem} (hne : first ≠ second)
    (hlength : first.length = second.length) (x y : List IrItem) : first ++ x ≠ second ++ y :=
  fun h => hne (List.append_inj_left h hlength)

theorem Differ.flush (h : Differ d i w) : Differ (flushParts d) (flushIntent i) (flushWatch w) := by
  cases hempty : d.textParts.isEmpty with
  | true =>
    have hother : i.now.textParts.isEmpty = true := by rw [← h.textParts, hempty]
    rw [flushParts_empty hempty, flushIntent, flushParts_empty hother]
    exact ⟨h.model, h.textParts, h.length, h.items, h.ok⟩
  | false =>
    have hother : i.now.textParts.isEmpty = false := by rw [← h.textParts, hempty]
    rw [flushParts_some hempty, flushIntent, flushParts_some hother]
    exact ⟨h.model, rfl, by simp [h.length], append_ne h.items h.length _ _, h.ok⟩

theorem Differ.push (h : Differ d i w) (x y : IrItem) (calls : List (String × String))
    (answered : List String) {w' : Watch} (hok : w'.ok = false) :
    Differ (d.push x) ⟨i.now.push y, calls, answered⟩ w' := by
  refine ⟨h.model, h.textParts, ?_, append_ne h.items h.length _ _, hok⟩
  simp [Decoding.push, h.length]

theorem Differ.piece (h : Differ d i w) (piece : Piece) :
    Differ (decodePiece d piece) (intendPiece i piece) (watchPiece w piece) := by
  cases piece with
  | call id name arguments signature => exact h.flush.push _ _ _ _ h.ok
  | response id name output parts =>
    exact h.flush.push _ _ _ _ (by simp [watchPiece, h.ok])
  | shown parts =>
    exact ⟨h.model, congrArg (· ++ parts) h.textParts, h.length, h.items, h.ok⟩

theorem Agree.piece (h : Agree d i w) {piece : Piece} (hvalid : Valid i piece) :
    Agree (decodePiece d piece) (intendPiece i piece) (watchPiece w piece) ∨
      Differ (decodePiece d piece) (intendPiece i piece) (watchPiece w piece) := by
  obtain rfl := h.now
  cases piece with
  | call id name arguments signature =>
    obtain ⟨rfl, hmodel⟩ := hvalid
    exact Or.inl ⟨rfl, h.rel.call hmodel name arguments signature, h.ok⟩
  | shown parts => exact Or.inl ⟨rfl, h.rel.shown parts, h.ok⟩
  | response id name output parts =>
    obtain ⟨rfl, hanswer⟩ := hvalid
    have hfound := found_iff h.rel hanswer
    cases hreach : (w.phase.reached && !w.stale.contains name) with
    | true =>
      have hphase := (Bool.and_eq_true_iff.mp hreach).1
      have hid : (none.or (foundId i.now name)).getD name = (none.or (nextCall i name)).getD name :=
        hfound.mpr hreach
      refine Or.inl ⟨?_, h.rel.response hanswer hphase output parts, ?_⟩
      · exact congrArg (fun id => (flushParts i.now).push (.functionOutput id output parts false)) hid
      · change (w.ok && w.phase.reached && !w.stale.contains name) = true
        rw [Bool.and_assoc, hreach, h.ok]
        rfl
    | false =>
      refine Or.inr ⟨rfl, rfl, ?_, fun heq => ?_, ?_⟩
      · simp [decodePiece, intendPiece, Decoding.push]
      · have hlast := List.append_cancel_left heq
        rw [List.singleton_inj, IrItem.functionOutput.injEq] at hlast
        exact absurd (hfound.mp hlast.1) (by rw [hreach]; decide)
      · change (w.ok && w.phase.reached && !w.stale.contains name) = false
        rw [Bool.and_assoc, hreach, Bool.and_false]

def ValidRun : Intent → List Piece → Prop
  | _, [] => True
  | i, piece :: rest => Valid i piece ∧ ValidRun (intendPiece i piece) rest

theorem run_pieces {pieces : List Piece} (hvalid : ValidRun i pieces)
    (h : Agree d i w ∨ Differ d i w) :
    Agree (pieces.foldl decodePiece d) (pieces.foldl intendPiece i) (pieces.foldl watchPiece w) ∨
      Differ (pieces.foldl decodePiece d) (pieces.foldl intendPiece i)
        (pieces.foldl watchPiece w) := by
  induction pieces generalizing d i w with
  | nil => exact h
  | cons piece rest ih =>
    refine ih hvalid.2 ?_
    rcases h with h | h
    · exact h.piece hvalid.1
    · exact Or.inr (h.piece piece)

theorem run_content {content : Content}
    (hvalid : ValidRun (openContent i content.model) content.pieces)
    (h : Agree d i w ∨ Differ d i w) :
    Agree (decodeContent d content) (intendContent i content) (watchContent w content) ∨
      Differ (decodeContent d content) (intendContent i content) (watchContent w content) := by
  have hopen : Agree ⟨content.model, [], d.items⟩ (openContent i content.model)
      (openWatch w content.model) ∨ Differ ⟨content.model, [], d.items⟩
      (openContent i content.model) (openWatch w content.model) := by
    rcases h with h | h
    · obtain rfl := h.now
      refine Or.inl ⟨rfl, h.rel.open content.model, ?_⟩
      rw [← h.ok, openWatch]
      split <;> rfl
    · refine Or.inr ⟨rfl, rfl, h.length, h.items, ?_⟩
      rw [← h.ok, openWatch]
      split <;> rfl
  rcases run_pieces hvalid hopen with h | h
  · refine Or.inl ⟨?_, h.rel.flush, h.ok⟩
    exact congrArg flushParts h.now
  · exact Or.inr h.flush

theorem intend_names (i : Intent) (pieces : List Piece) :
    (pieces.foldl intendPiece i).calls.map Prod.fst = i.calls.map Prod.fst ++ callNames pieces ∧
      (pieces.foldl intendPiece i).answered = i.answered ++ responseNames pieces := by
  induction pieces generalizing i with
  | nil => exact ⟨(List.append_nil _).symm, (List.append_nil _).symm⟩
  | cons piece rest ih =>
    obtain ⟨hcalls, hanswered⟩ := ih (intendPiece i piece)
    rw [List.foldl_cons, hcalls, hanswered]
    cases piece with
    | call id name arguments signature =>
      refine ⟨?_, rfl⟩
      change (i.calls ++ [_]).map Prod.fst ++ callNames rest = i.calls.map Prod.fst ++ name :: callNames rest
      simp
    | response id name output parts =>
      refine ⟨rfl, ?_⟩
      change i.answered ++ [name] ++ responseNames rest = i.answered ++ name :: responseNames rest
      simp
    | shown parts => exact ⟨rfl, rfl⟩

theorem decodePiece_model (d : Decoding) (piece : Piece) : (decodePiece d piece).model = d.model := by
  cases piece with
  | call => exact flushParts_model d
  | response => exact flushParts_model d
  | shown => rfl

theorem intendPiece_model (i : Intent) (piece : Piece) :
    (intendPiece i piece).now.model = i.now.model := by
  cases piece with
  | call => exact decodePiece_model i.now _
  | response => exact flushParts_model i.now
  | shown => rfl

theorem valid_model {pieces : List Piece} (hids : ∀ piece ∈ pieces, hasId piece = false)
    (hresponses : responseNames pieces = []) (hmodel : i.now.model = true) : ValidRun i pieces := by
  induction pieces generalizing i with
  | nil => trivial
  | cons piece rest ih =>
    have hrest := fun other hmem => hids other (List.mem_cons_of_mem _ hmem)
    have hmodel' := (intendPiece_model i piece).trans hmodel
    have hid := hids piece List.mem_cons_self
    cases piece with
    | call id name arguments signature =>
      exact ⟨⟨Option.not_isSome_iff_eq_none.mp (by simpa [hasId] using hid), hmodel⟩,
        ih hrest hresponses hmodel'⟩
    | response id name output parts => cases hresponses
    | shown parts => exact ⟨trivial, ih hrest hresponses hmodel'⟩

theorem valid_user {pieces : List Piece} (hids : ∀ piece ∈ pieces, hasId piece = false)
    (hcalls : callNames pieces = []) (hmodel : i.now.model = false)
    (hcount : ∀ name, (i.answered ++ responseNames pieces).count name ≤
      (i.calls.map Prod.fst).count name) : ValidRun i pieces := by
  induction pieces generalizing i with
  | nil => trivial
  | cons piece rest ih =>
    have hrest := fun other hmem => hids other (List.mem_cons_of_mem _ hmem)
    have hmodel' := (intendPiece_model i piece).trans hmodel
    have hid := hids piece List.mem_cons_self
    cases piece with
    | call id name arguments signature => cases hcalls
    | response id name output parts =>
      have hnames : responseNames (.response id name output parts :: rest) =
          name :: responseNames rest := rfl
      rw [hnames] at hcount
      refine ⟨⟨Option.not_isSome_iff_eq_none.mp (by simpa [hasId] using hid), hmodel, ?_⟩,
        ih hrest hcalls hmodel' fun other => ?_⟩
      · have := hcount name
        rw [List.count_append, List.count_cons_self] at this
        omega
      · have hsame : (intendPiece i (.response id name output parts)).answered ++ responseNames rest =
            i.answered ++ name :: responseNames rest := by simp [intendPiece]
        rw [hsame]
        exact hcount other
    | shown parts => exact ⟨trivial, ih hrest hcalls hmodel' hcount⟩

theorem run_contents {contents : List Content} (hids : NoIds contents)
    (hanswers : Answers (i.calls.map Prod.fst) i.answered contents)
    (h : Agree d i w ∨ Differ d i w) :
    Agree (contents.foldl decodeContent d) (contents.foldl intendContent i)
        (contents.foldl watchContent w) ∨
      Differ (contents.foldl decodeContent d) (contents.foldl intendContent i)
        (contents.foldl watchContent w) := by
  induction contents generalizing d i w with
  | nil => exact h
  | cons content rest ih =>
    have hpieces := hids content List.mem_cons_self
    have hrest : NoIds rest := fun other hmem => hids other (List.mem_cons_of_mem _ hmem)
    obtain ⟨hcalls, hanswered⟩ := intend_names (openContent i content.model) content.pieces
    rw [Answers] at hanswers
    cases hmodel : content.model with
    | true =>
      rw [hmodel, if_pos rfl] at hanswers
      have hopen : (openContent i content.model).now.model = true := hmodel
      refine ih hrest ?_ (run_content (valid_model hpieces hanswers.1 hopen) h)
      change Answers ((content.pieces.foldl intendPiece (openContent i content.model)).calls.map Prod.fst)
        (content.pieces.foldl intendPiece (openContent i content.model)).answered rest
      rw [hcalls, hanswered, hanswers.1, hmodel]
      exact hanswers.2
    | false =>
      rw [hmodel, if_neg (by decide)] at hanswers
      have hopen : (openContent i content.model).now.model = false := hmodel
      have hkept : (openContent i content.model).calls = i.calls ∧
          (openContent i content.model).answered = i.answered := by
        rw [hmodel]
        exact ⟨rfl, rfl⟩
      refine ih hrest ?_ (run_content (valid_user hpieces hanswers.1 hopen ?_) h)
      · change Answers ((content.pieces.foldl intendPiece (openContent i content.model)).calls.map Prod.fst)
          (content.pieces.foldl intendPiece (openContent i content.model)).answered rest
        rw [hcalls, hanswered, hanswers.1, List.append_nil, hkept.1, hkept.2]
        exact hanswers.2.2
      · rw [hkept.1, hkept.2]
        exact hanswers.2.1

variable (sj : SerdeJson)

def contentsOf (body : Value) : List Content :=
  (((body.get? "contents").bind Value.asArray?).getD []).map (readContent sj)

/-- The responses have the ids that are meant, refer to earlier calls, and share none. -/
structure NameMatched (items : List IrItem) (contents : List Content) : Prop where
  same : decodeContents items contents = intended items contents
  refers : Refers (decodeContents items contents)
  apart : (outputIds (decodeContents items contents)).Nodup

theorem systemItems_cut (body : Value) :
    Rel ⟨⟨false, [], systemItems body⟩, [], []⟩ ⟨false, false, .start, [], [], true⟩ := by
  have hitems : systemItems body = [] ∨ ∃ r, systemItems body = [.system r] := by
    unfold systemItems
    cases systemText (body.get? "systemInstruction") with
    | none => exact Or.inl rfl
    | some text => exact Or.inr ⟨_, rfl⟩
  have hledger : Ledger (systemItems body) [] [] := by
    rcases hitems with hnone | ⟨r, hone⟩
    · exact ledger_nil (by rw [hnone]; rfl) (by rw [hnone]; rfl)
    · exact ledger_nil (by rw [hone]; rfl) (by rw [hone]; rfl)
  refine ⟨rfl, rfl, rfl, hledger, ⟨systemItems body, [], [], [], by simp, ?_, by simp, rfl, rfl,
    fun call hmem => (by cases hmem), rfl⟩, fun _ => rfl, fun hm => by cases hm⟩
  rcases hitems with hnone | ⟨r, hone⟩
  · exact Or.inl hnone
  · exact Or.inr ⟨[], .system r, rfl, hone⟩

/-- Responses are matched by name exactly when each of them is in reach. -/
theorem responses_matched_iff (body : Value) (h : Conversation (contentsOf sj body)) :
    decode sj body = decodeContents (systemItems body) (contentsOf sj body) ∧
      (NameMatched (systemItems body) (contentsOf sj body) ↔ InReach (contentsOf sj body)) := by
  refine ⟨rfl, ?_⟩
  have hrun := run_contents (d := ⟨false, [], systemItems body⟩) (i := ⟨⟨false, [], systemItems body⟩, [], []⟩)
    (w := ⟨false, false, .start, [], [], true⟩) h.noIds h.answers
    (Or.inl ⟨rfl, systemItems_cut body, rfl⟩)
  rcases hrun with hagree | hdiffer
  · have hsame : decodeContents (systemItems body) (contentsOf sj body) =
        intended (systemItems body) (contentsOf sj body) := congrArg Decoding.items hagree.now
    refine iff_of_true ⟨hsame, ?_, ?_⟩ hagree.ok
    · rw [hsame]
      exact hagree.rel.ledger.refers
    · rw [hsame]
      exact hagree.rel.ledger.apart
  · refine iff_of_false (fun hmatched => hdiffer.items hmatched.same) fun hreach => ?_
    exact absurd (hdiffer.ok.symm.trans hreach) (by decide)

def textContent (role text : String) : Value :=
  .object [("role", role), ("parts", .array [.object [("text", text)]])]

def callContent (name : String) : Value :=
  .object [("role", "model"),
    ("parts", .array [.object [("functionCall", .object [("name", name)])]])]

def responseContent (name : String) : Value :=
  .object [("role", "user"), ("parts", .array [.object [("functionResponse", .object [("name", name)])]])]

def bodyOf (contents : List Value) : Value := .object [("contents", .array contents)]

/-- A question, a call and its response. -/
def oneCall : Value :=
  bodyOf [textContent "user" "hi", callContent "f", responseContent "f"]

theorem conversation_of {body : Value} (hids : (contentsOf flatJson body).all
      (fun content => content.pieces.all fun piece => !hasId piece) = true)
    (hanswers : Answers [] [] (contentsOf flatJson body)) (hfollowed : Followed (contentsOf flatJson body)) :
    Conversation (contentsOf flatJson body) := by
  refine ⟨fun content hcontent piece hpiece => ?_, hanswers, hfollowed⟩
  have hall := List.all_eq_true.mp (List.all_eq_true.mp hids content hcontent) piece hpiece
  simpa using hall

theorem oneCall_conversation : Conversation (contentsOf flatJson oneCall) := by
  refine conversation_of (by decide) ?_ ?_
  · exact ⟨rfl, fun name => le_refl _, rfl, rfl, fun name => le_refl _, trivial⟩
  · exact ⟨fun h => (by cases h), fun _ => ⟨_, _, rfl, rfl⟩, fun h => (by cases h), trivial⟩

theorem responses_matched_oneCall :
    NameMatched (systemItems oneCall) (contentsOf flatJson oneCall) ↔
      InReach (contentsOf flatJson oneCall) :=
  (responses_matched_iff flatJson oneCall oneCall_conversation).2

/-- Text in a content of its own in front of the response. -/
def textFirst : Value :=
  bodyOf [textContent "user" "hi", callContent "f", textContent "user" "one moment",
    responseContent "f"]

theorem response_behind_text_unmatched :
    Conversation (contentsOf flatJson textFirst) ∧
      ¬ NameMatched (systemItems textFirst) (contentsOf flatJson textFirst) := by
  refine ⟨conversation_of (by decide) ?_ ?_, fun h => ?_⟩
  · exact ⟨rfl, fun name => le_refl _, rfl, rfl, fun name => Nat.zero_le _, rfl, fun name => le_refl _, trivial⟩
  · exact ⟨fun h => (by cases h), fun _ => ⟨_, _, rfl, rfl⟩, fun h => (by cases h),
      fun h => (by cases h), trivial⟩
  · have hids := congrArg outputIds h.same
    exact absurd hids (by decide)

end Wiremux.GeminiAnswers
