import Wiremux.CredentialStore
import Wiremux.EventStreamWriting
import Wiremux.SerialUpdates

set_option autoImplicit false

/-!
# Runs of the credential writers

While no login or removal overlaps another writer, the file is the result of the
committed operations one after the other. The lock keeps the other writers apart;
nothing keeps a login or a removal apart.
-/
namespace Wiremux.CredentialRuns
open JsonValue CredentialPointers CredentialWriteback CredentialStore SerialUpdates
open EventStream (fromUtf8)
open SseWriting (utf8)

/-- The change of an operation that runs alone; `none` is no file. -/
def change (op : Op) (cur : Option Value) : Option (Option Value) :=
  match op with
  | .refresh w now => (cur.bind fun doc => (applyTokens doc w now).toOption).map some
  | .save w now => (cur.bind fun doc => (applyTokens doc w now).toOption).map some
  | .login oauth tokens now =>
    (loginWrite oauth tokens cur).toOption.bind fun w =>
      ((applyTokens (cur.getD (.object [])) w now).toOption).map some
  | .remove oauth => cur.bind fun doc => (removeEntry oauth doc).toOption

/-- The entries an operation is about, in the document it finds. -/
def touches (op : Op) (cur : Option Value) (k : String) : Prop :=
  match op with
  | .refresh w _ => w.touches k
  | .save w _ => w.touches k
  | .login oauth tokens _ => ∃ w, loginWrite oauth tokens cur = .ok w ∧ w.touches k
  | .remove oauth => ∃ doc, cur = some doc ∧ entryKey oauth doc = .ok k

def entry (cur : Option Value) (k : String) : Option Value := cur.bind fun doc => doc.get? k

theorem toOption_eq_some {α : Type*} {r : Except AuthError α} {a : α} (h : r.toOption = some a) :
    r = .ok a := by
  cases r with
  | error e => cases h
  | ok b => exact congrArg Except.ok (Option.some.inj h)

theorem write_frames {doc : Value} {after : Option Value} {w : TokenWrite} {now : ℕ} {k : String}
    (h : ((applyTokens doc w now).toOption).map some = some after) (hk : ¬ w.touches k) :
    entry after k = doc.get? k := by
  obtain ⟨doc', hdoc', hafter⟩ := Option.map_eq_some_iff.mp h
  subst hafter
  have hok := toOption_eq_some hdoc'
  have hobject := applyTokens_object hok
  have hframe := hobject.2 k hk
  rw [entry, Option.bind_some]
  exact hframe

theorem change_frames {ι : Type*} (ops : ι → Op) :
    Frames (fun i => change (ops i)) entry fun i => touches (ops i) := by
  intro i before after k hchange hk
  beta_reduce at hchange hk
  have hwrite : ∀ w now, (before.bind fun doc => (applyTokens doc w now).toOption).map some =
      some after → ¬ w.touches k → entry after k = entry before k := by
    intro w now hmap hout
    cases before with
    | none => cases hmap
    | some doc =>
      rw [Option.bind_some] at hmap
      exact write_frames hmap hout
  cases hop : ops i with
  | refresh w now =>
    rw [hop] at hchange hk
    rw [change] at hchange
    rw [touches] at hk
    exact hwrite w now hchange hk
  | save w now =>
    rw [hop] at hchange hk
    rw [change] at hchange
    rw [touches] at hk
    exact hwrite w now hchange hk
  | login oauth tokens now =>
    rw [hop] at hchange hk
    obtain ⟨w, hw, hmap⟩ := Option.bind_eq_some_iff.mp hchange
    have hout : ¬ w.touches k := fun hin => hk ⟨w, toOption_eq_some hw, hin⟩
    rw [write_frames hmap hout]
    cases before <;> rfl
  | remove oauth =>
    rw [hop] at hchange hk
    obtain ⟨doc, hdoc, hleft⟩ := Option.bind_eq_some_iff.mp hchange
    have hout : ∀ key, entryKey oauth doc = .ok key → key ≠ k := by
      rintro key hkey rfl
      exact hk ⟨doc, hdoc, hkey⟩
    rw [hdoc]
    exact (removeEntry_object (toOption_eq_some hleft)).2 k hout

/-- No file, or the text of a JSON object. -/
inductive Holds (json : Json) (f : Files) : Option Value → Prop
  | absent (nofile : f.file = none) : Holds json f none
  | present {n : ℕ} {doc : Value} {text : String} (named : f.file = some n)
      (object : doc.isObject = true) (utf8 : fromUtf8 (f.inodes n) = some text)
      (parse : json.serde.fromStr text = some doc) : Holds json f (some doc)

/-- The file and its sibling are two files, and new ones are new. -/
structure Formed (f : Files) : Prop where
  distinct : ∀ n, f.file = some n → f.tmp ≠ some n
  file : ∀ n, f.file = some n → n < f.fresh
  tmp : ∀ n, f.tmp = some n → n < f.fresh

variable {json : Json} {f : Files} {cur : Option Value}

theorem Holds.isFile (h : Holds json f cur) : f.isFile = cur.isSome := by
  cases h with
  | absent nofile => rw [Files.isFile, nofile]; rfl
  | present named => rw [Files.isFile, named]; rfl

theorem Holds.read {text : String} (h : Holds json f cur) (hread : readCredsString f = some text) :
    ∃ doc, cur = some doc ∧ json.serde.fromStr text = some doc := by
  obtain ⟨contents, hcontents, hread⟩ := Option.bind_eq_some_iff.mp hread
  cases h with
  | absent nofile =>
    rw [nofile] at hcontents
    cases hcontents
  | present named object htext parse =>
    rw [named] at hcontents
    obtain rfl := Option.some.inj hcontents
    split at hread
    · cases hread
    · rw [htext] at hread
      exact ⟨_, rfl, Option.some.inj hread ▸ parse⟩

theorem Holds.parse {doc : Value} (h : Holds json f cur) (hparse : parseCreds json f = some doc) :
    cur = some doc := by
  obtain ⟨text, hread, hfrom⟩ := Option.bind_eq_some_iff.mp hparse
  obtain ⟨doc', hcur, hdoc'⟩ := h.read hread
  rw [hdoc'] at hfrom
  rw [hcur, Option.some.inj hfrom]

theorem Holds.update {g : Files} {n : ℕ} {contents : List UInt8} (h : Holds json f cur)
    (hn : f.file ≠ some n) (hfile : g.file = f.file)
    (hinodes : g.inodes = Function.update f.inodes n contents) : Holds json g cur := by
  cases h with
  | absent nofile => exact .absent (hfile.trans nofile)
  | present named object htext parse =>
    refine .present (hfile.trans named) object ?_ parse
    rwa [hinodes, Function.update_of_ne]
    rintro rfl
    exact hn named

theorem Formed.removeTmp (h : Formed f) : Formed f.removeTmp :=
  ⟨fun _ _ hnone => (by cases hnone), h.file, fun _ hnone => (by cases hnone)⟩

theorem Holds.removeTmp (h : Holds json f cur) : Holds json f.removeTmp cur := by
  cases h with
  | absent nofile => exact .absent nofile
  | present named object htext parse => exact .present named object htext parse

def Doing (json : Json) (op : Op) (f : Files) (cur : Option Value) : Phase → Prop
  | .lookedUp present => present = f.isFile
  | .pointed w now => ∃ oauth tokens, op = .login oauth tokens now ∧ loginWrite oauth tokens cur = .ok w
  | .ready w now => ∀ doc doc', cur = some doc → applyTokens doc w now = .ok doc' →
      change op cur = some (some doc')
  | .changed doc => doc.isObject = true ∧ change op cur = some (some doc)
  | .emptied => change op cur = some none
  | .opened n doc => doc.isObject = true ∧ change op cur = some (some doc) ∧
      f.tmp = some n ∧ f.inodes n = []
  | .written doc => doc.isObject = true ∧ change op cur = some (some doc) ∧
      ∃ n, f.tmp = some n ∧ f.inodes n = utf8 (json.toStringPretty doc).toList
  | _ => True

/-- After a step: nothing is committed and the writer goes on, or its change is. -/
inductive Stepped (json : Json) (op : Op) (cur : Option Value) (p : Phase) (g : Files) (next : Phase) :
    Prop
  | waiting (nothing : p.commits next = none) (failed : next ≠ .done true) (holds : Holds json g cur)
      (formed : Formed g) (doing : Doing json op g cur next)
  | committed (after : Option Value) (commits : p.commits next = some after) (ended : next = .done true)
      (changed : change op cur = some after)
      (holds : (∀ doc, after = some doc → json.serde.fromStr (json.toStringPretty doc) = some doc) →
        Holds json g after)
      (formed : Formed g)

theorem doing_ofChange {op : Op} {g : Files} {r : Except AuthError Value}
    (hobject : ∀ doc, r = .ok doc → doc.isObject = true)
    (h : ∀ doc, r = .ok doc → change op cur = some (some doc)) :
    Doing json op g cur (Phase.ofChange r) := by
  cases r with
  | error e => trivial
  | ok doc => exact ⟨hobject doc rfl, h doc rfl⟩

theorem ofChange_ne_done (r : Except AuthError Value) : Phase.ofChange r ≠ .done true := by
  cases r <;> nofun

section Stepping
variable {op : Op} {p : Phase}

theorem Stepped.still {next : Phase} (nothing : p.commits next = none) (failed : next ≠ .done true)
    (holds : Holds json f cur) (formed : Formed f) (doing : Doing json op f cur next) :
    Stepped json op cur p f next := .waiting nothing failed holds formed doing

theorem stepped_idle (holds : Holds json f cur) (formed : Formed f) :
    Stepped json op cur .idle (act json op f .idle).1 (act json op f .idle).2 := by
  cases op with
  | refresh w now => exact .still rfl nofun holds formed trivial
  | save w now => exact .still rfl nofun holds formed trivial
  | login oauth tokens now =>
    rw [act]
    split
    · exact .still rfl nofun holds formed trivial
    · exact .still rfl nofun holds formed rfl
  | remove oauth =>
    rw [act]
    split
    · exact .still rfl nofun holds formed trivial
    · exact .still rfl nofun holds formed rfl

theorem doing_lookupLogin {oauth : OauthPack} {tokens : TokenExchangeResponse} {now : ℕ}
    (holds : Holds json f cur) :
    Doing json (.login oauth tokens now) f cur (lookupLogin json oauth tokens now f f.isFile) ∧
      lookupLogin json oauth tokens now f f.isFile ≠ .done true ∧
      (Phase.lookedUp f.isFile).commits (lookupLogin json oauth tokens now f f.isFile) = none := by
  unfold lookupLogin
  simp only
  split
  · split
    · exact ⟨trivial, nofun, rfl⟩
    · rename_i text hread
      obtain ⟨doc, hcur, hparse⟩ := holds.read hread
      rw [hparse]
      split
      · exact ⟨trivial, nofun, rfl⟩
      · rename_i w hw
        exact ⟨⟨oauth, tokens, rfl, hcur ▸ hw⟩, nofun, rfl⟩
  · rename_i habsent
    have hcur : cur = none := by
      rw [holds.isFile] at habsent
      simpa using habsent
    split
    · exact ⟨trivial, nofun, rfl⟩
    · rename_i w hw
      exact ⟨⟨oauth, tokens, rfl, hcur ▸ hw⟩, nofun, rfl⟩

theorem doing_lookupRemove {oauth : OauthPack} {present : Bool} (holds : Holds json f cur) :
    Doing json (.remove oauth) f cur (lookupRemove json oauth f present) ∧
      lookupRemove json oauth f present ≠ .done true ∧
      (Phase.lookedUp present).commits (lookupRemove json oauth f present) = none := by
  unfold lookupRemove
  split
  · exact ⟨trivial, nofun, rfl⟩
  · split
    · exact ⟨trivial, nofun, rfl⟩
    · rename_i doc hparse
      have hcur := holds.parse hparse
      have hchange : ∀ left, removeEntry oauth doc = .ok left →
          change (.remove oauth) cur = some left := by
        intro left hleft
        rw [hcur, change, Option.bind_some, hleft]
        rfl
      split
      · exact ⟨trivial, nofun, rfl⟩
      · rename_i hempty
        exact ⟨hchange none hempty, nofun, rfl⟩
      · rename_i rest hrest
        exact ⟨⟨(removeEntry_object hrest).1 rest rfl, hchange (some rest) hrest⟩, nofun, rfl⟩

theorem stepped_lookedUp {present : Bool} (holds : Holds json f cur) (formed : Formed f)
    (doing : Doing json op f cur (.lookedUp present)) :
    Stepped json op cur (.lookedUp present) (act json op f (.lookedUp present)).1
      (act json op f (.lookedUp present)).2 := by
  cases op with
  | refresh w now => exact .still rfl nofun holds formed trivial
  | save w now => exact .still rfl nofun holds formed trivial
  | login oauth tokens now =>
    obtain rfl : present = f.isFile := doing
    obtain ⟨hdoing, hfailed, hnothing⟩ := @doing_lookupLogin json f cur oauth tokens now holds
    exact .still hnothing hfailed holds formed hdoing
  | remove oauth =>
    obtain ⟨hdoing, hfailed, hnothing⟩ := @doing_lookupRemove json f cur oauth present holds
    exact .still hnothing hfailed holds formed hdoing

theorem commits_ofChange (hp : ∀ doc, p ≠ .written doc) (hp' : p ≠ .emptied)
    (r : Except AuthError Value) : p.commits (Phase.ofChange r) = none := by
  cases r with
  | error e => cases p <;> rfl
  | ok doc => cases p <;> rfl

theorem change_login {oauth : OauthPack} {tokens : TokenExchangeResponse} {now : ℕ} {w : TokenWrite}
    {doc' : Value} (hw : loginWrite oauth tokens cur = .ok w)
    (happly : applyTokens (cur.getD (.object [])) w now = .ok doc') :
    change (.login oauth tokens now) cur = some (some doc') := by
  have hwrite : (loginWrite oauth tokens cur).toOption = some w := by
    rw [hw]
    rfl
  have hdone : (applyTokens (cur.getD (.object [])) w now).toOption = some doc' := by
    rw [happly]
    rfl
  rw [change, hwrite, Option.bind_some, hdone, Option.map_some]

theorem stepped_pointed {w : TokenWrite} {now : ℕ} (holds : Holds json f cur) (formed : Formed f)
    (doing : Doing json op f cur (.pointed w now)) :
    Stepped json op cur (.pointed w now) (act json op f (.pointed w now)).1
      (act json op f (.pointed w now)).2 := by
  obtain ⟨oauth, tokens, rfl, hw⟩ := doing
  rw [act]
  split
  · have hready : ∀ doc doc', cur = some doc → applyTokens doc w now = .ok doc' →
        change (.login oauth tokens now) cur = some (some doc') := by
      intro doc doc' hcur happly
      refine change_login hw ?_
      rw [hcur, Option.getD_some]
      exact happly
    exact .still rfl nofun holds formed hready
  · rename_i habsent
    have hcur : cur = none := by
      rw [holds.isFile] at habsent
      simpa using habsent
    dsimp only
    generalize hwrite : applyTokens (.object []) w now = result
    have hobject : ∀ doc', result = .ok doc' → doc'.isObject = true :=
      fun doc' happly => (applyTokens_object (hwrite.trans happly)).1
    have hchange : ∀ doc', result = .ok doc' →
        change (.login oauth tokens now) cur = some (some doc') := by
      intro doc' happly
      refine change_login hw ?_
      rw [hcur, Option.getD_none]
      exact hwrite.trans happly
    exact .still (@commits_ofChange (.pointed w now) nofun nofun _) (ofChange_ne_done _) holds formed
      (doing_ofChange hobject hchange)

theorem stepped_ready {w : TokenWrite} {now : ℕ} (holds : Holds json f cur) (formed : Formed f)
    (doing : Doing json op f cur (.ready w now)) :
    Stepped json op cur (.ready w now) (act json op f (.ready w now)).1
      (act json op f (.ready w now)).2 := by
  rw [act]
  split
  · exact .still rfl nofun holds formed trivial
  · rename_i doc hparse
    have hcur := holds.parse hparse
    dsimp only
    generalize hwrite : applyTokens doc w now = result
    have hobject : ∀ doc', result = .ok doc' → doc'.isObject = true :=
      fun doc' happly => (applyTokens_object (hwrite.trans happly)).1
    have hchange : ∀ doc', result = .ok doc' → change op cur = some (some doc') :=
      fun doc' happly => doing doc doc' hcur (hwrite.trans happly)
    exact .still (@commits_ofChange (.ready w now) nofun nofun _) (ofChange_ne_done _) holds formed
      (doing_ofChange hobject hchange)

theorem stepped_changed {doc : Value} (holds : Holds json f cur) (formed : Formed f)
    (doing : Doing json op f cur (.changed doc)) :
    Stepped json op cur (.changed doc) (act json op f (.changed doc)).1
      (act json op f (.changed doc)).2 := by
  obtain ⟨hobject, hchange⟩ := doing
  rw [act, Files.openTmp]
  split
  · rename_i n htmp
    have hother : f.file ≠ some n := fun hfile => formed.distinct n hfile htmp
    refine .waiting rfl nofun (holds.update hother rfl rfl) ⟨formed.distinct, formed.file, formed.tmp⟩
      ⟨hobject, hchange, htmp, ?_⟩
    exact Function.update_self n [] f.inodes
  · have hother : f.file ≠ some f.fresh := fun hfile => absurd (formed.file _ hfile) (lt_irrefl _)
    refine .waiting rfl nofun (holds.update hother rfl rfl) ⟨?_, ?_, ?_⟩
      ⟨hobject, hchange, rfl, Function.update_self f.fresh [] f.inodes⟩
    · intro n hfile htmp
      exact hother (hfile.trans htmp.symm)
    · intro n hfile
      exact Nat.lt_succ_of_lt (formed.file n hfile)
    · intro n htmp
      obtain rfl := Option.some.inj htmp
      exact Nat.lt_succ_self _

theorem stepped_opened {n : ℕ} {doc : Value} (holds : Holds json f cur) (formed : Formed f)
    (doing : Doing json op f cur (.opened n doc)) :
    Stepped json op cur (.opened n doc) (act json op f (.opened n doc)).1
      (act json op f (.opened n doc)).2 := by
  obtain ⟨hobject, hchange, htmp, hempty⟩ := doing
  have hother : f.file ≠ some n := fun hfile => formed.distinct n hfile htmp
  refine .waiting rfl nofun (holds.update hother rfl rfl) ⟨formed.distinct, formed.file, formed.tmp⟩
    ⟨hobject, hchange, n, htmp, ?_⟩
  change Function.update f.inodes n (utf8 (json.toStringPretty doc).toList ++
    (f.inodes n).drop _) n = _
  rw [Function.update_self, hempty, List.drop_nil, List.append_nil]

theorem stepped_written {doc : Value} (formed : Formed f)
    (doing : Doing json op f cur (.written doc)) :
    Stepped json op cur (.written doc) (act json op f (.written doc)).1
      (act json op f (.written doc)).2 := by
  obtain ⟨hobject, hchange, n, htmp, hcontents⟩ := doing
  have hrename : f.replaceSecretFile = some { f with file := some n, tmp := none } := by
    rw [Files.replaceSecretFile, htmp]
    rfl
  rw [act, hrename]
  refine .committed (some doc) rfl rfl hchange (fun hjson => ?_) ⟨fun _ _ hnone => (by cases hnone), ?_, ?_⟩
  · refine .present rfl hobject ?_ (hjson doc rfl)
    change fromUtf8 (f.inodes n) = _
    rw [hcontents]
    exact EventStreamWriting.fromUtf8_utf8 _
  · intro m hm
    obtain rfl := Option.some.inj hm
    exact formed.tmp n htmp
  · intro m hm
    cases hm

theorem stepped_emptied (holds : Holds json f cur) (formed : Formed f)
    (doing : Doing json op f cur .emptied) :
    Stepped json op cur .emptied (act json op f .emptied).1 (act json op f .emptied).2 := by
  rw [act]
  split
  · exact .committed none rfl rfl doing (fun _ => .absent rfl)
      ⟨fun _ hnone => (by cases hnone), fun _ hnone => (by cases hnone), formed.tmp⟩
  · exact .still rfl nofun holds formed trivial

theorem act_stepped (hp : p.isDone = false) (holds : Holds json f cur) (formed : Formed f)
    (doing : Doing json op f cur p) :
    Stepped json op cur p (act json op f p).1 (act json op f p).2 := by
  cases p with
  | idle => exact stepped_idle holds formed
  | lookedUp present => exact stepped_lookedUp holds formed doing
  | pointed w now => exact stepped_pointed holds formed doing
  | ready w now => exact stepped_ready holds formed doing
  | changed doc => exact stepped_changed holds formed doing
  | emptied => exact stepped_emptied holds formed doing
  | opened n doc => exact stepped_opened holds formed doing
  | written doc => exact stepped_written formed doing
  | done ok => cases hp

end Stepping

section Runs
variable {ι : Type*} [DecidableEq ι] {ops : ι → Op} {s t : State ι}

/-- One writer at a time, and the file is what the commits so far make of `cur₀`. -/
structure Inv (json : Json) (ops : ι → Op) (cur₀ : Option Value) (s : State ι) (cur : Option Value)
    (history : List (Commit ι (Option Value))) : Prop where
  holds : Holds json s.files cur
  formed : Formed s.files
  alone : ∀ i j, (s.phases i).active → (s.phases j).active → i = j
  locks : ∀ i, (s.phases i).active → (ops i).locked.isSome → s.lock = some i
  doing : ∀ i, Doing json (ops i) s.files cur (s.phases i)
  serial : Serial (fun i => change (ops i)) cur₀ history cur
  logged : history.map (fun c => (c.who, c.after)) = s.log
  succeeded : ∀ i, s.phases i = .done true → ∃ c ∈ history, c.who = i

theorem doing_inactive {op : Op} {g : Files} {p : Phase} (h : ¬ p.active) : Doing json op g cur p := by
  cases p <;> first | trivial | exact absurd trivial h

theorem put_phase_self (i : ι) (g : Files) (next : Phase) : (s.put i g next).phases i = next := by
  rw [State.put]
  exact Function.update_self i next s.phases

theorem put_phase_of_ne {i j : ι} (h : j ≠ i) (g : Files) (next : Phase) :
    (s.put i g next).phases j = s.phases j := by
  rw [State.put]
  exact Function.update_of_ne h next s.phases

theorem put_lock {i : ι} {g : Files} {next : Phase} (h : next.isDone = false) :
    (s.put i g next).lock = s.lock := by
  rw [State.put, h]
  rfl

theorem not_active_of_isDone {p : Phase} (h : p.isDone = true) : ¬ p.active := by
  cases p <;> first | exact id | cases h

variable {cur₀ : Option Value} {history : List (Commit ι (Option Value))}

theorem Inv.put (h : Inv json ops cur₀ s cur history) {i : ι} {g : Files} {next : Phase}
    (hothers : ∀ j, j ≠ i → ¬ (s.phases j).active)
    (hlocks : next.active → (ops i).locked.isSome → s.lock = some i)
    (hstepped : Stepped json (ops i) cur (s.phases i) g next)
    (hjson : ∀ c ∈ (s.put i g next).log, ∀ doc, c.2 = some doc →
      json.serde.fromStr (json.toStringPretty doc) = some doc) :
    ∃ cur' history', Inv json ops cur₀ (s.put i g next) cur' history' := by
  have hactive : ∀ j, ((s.put i g next).phases j).active → j = i ∧ next.active := by
    intro j hj
    by_cases hij : j = i
    · subst hij
      rw [put_phase_self] at hj
      exact ⟨rfl, hj⟩
    · rw [put_phase_of_ne hij] at hj
      exact absurd hj (hothers j hij)
  have halone : ∀ j k, ((s.put i g next).phases j).active → ((s.put i g next).phases k).active →
      j = k := fun j k hj hk => (hactive j hj).1.trans (hactive k hk).1.symm
  have hlock : ∀ j, ((s.put i g next).phases j).active → (ops j).locked.isSome →
      (s.put i g next).lock = some j := by
    intro j hj hlocked
    obtain ⟨rfl, hnext⟩ := hactive j hj
    have hgoing : next.isDone = false := by
      by_contra hdone
      exact not_active_of_isDone (by simpa using hdone) hnext
    rw [put_lock hgoing]
    exact hlocks hnext hlocked
  have hdoing : ∀ cur', Doing json (ops i) g cur' next →
      ∀ j, Doing json (ops j) g cur' ((s.put i g next).phases j) := by
    intro cur' hnext j
    by_cases hij : j = i
    · subst hij
      rwa [put_phase_self]
    · rw [put_phase_of_ne hij]
      exact doing_inactive (hothers j hij)
  cases hstepped with
  | waiting nothing failed holds formed doing =>
    refine ⟨cur, history, ⟨holds, formed, halone, hlock, hdoing cur doing, h.serial, ?_, ?_⟩⟩
    · rw [h.logged, State.put, nothing]
      simp
    · intro j hj
      by_cases hij : j = i
      · subst hij
        rw [put_phase_self] at hj
        exact absurd hj failed
      · rw [put_phase_of_ne hij] at hj
        exact h.succeeded j hj
  | committed after commits ended changed holds formed =>
    have hlog : (s.put i g next).log = s.log ++ [(i, after)] := by
      rw [State.put, commits]
      rfl
    refine ⟨after, history ++ [⟨i, cur, after⟩],
      ⟨holds fun doc hdoc => ?_, formed, halone, hlock, hdoing after (ended ▸ trivial),
        h.serial.commit changed, ?_, ?_⟩⟩
    · exact hjson (i, after) (hlog ▸ List.mem_append_right _ List.mem_cons_self) doc hdoc
    · rw [List.map_append, h.logged, hlog]
      rfl
    · intro j hj
      by_cases hij : j = i
      · exact ⟨_, List.mem_append_right _ List.mem_cons_self, hij.symm⟩
      · rw [put_phase_of_ne hij] at hj
        obtain ⟨c, hc, hwho⟩ := h.succeeded j hj
        exact ⟨c, List.mem_append_left _ hc, hwho⟩

theorem Inv.put_idle (h : Inv json ops cur₀ s cur history) {i : ι} {next : Phase}
    (hidle : s.phases i = .idle) (hnext : next = .idle ∨ next = .done false) :
    Inv json ops cur₀ (s.put i s.files next) cur history := by
  have hinactive : ¬ next.active := by rcases hnext with rfl | rfl <;> exact id
  have hother : ∀ j, ((s.put i s.files next).phases j).active →
      j ≠ i ∧ (s.phases j).active := by
    intro j hj
    by_cases hij : j = i
    · subst hij
      rw [put_phase_self] at hj
      exact absurd hj hinactive
    · rw [put_phase_of_ne hij] at hj
      exact ⟨hij, hj⟩
  refine ⟨h.holds, h.formed, fun j k hj hk => h.alone j k (hother j hj).2 (hother k hk).2, ?_, ?_,
    h.serial, ?_, ?_⟩
  · intro j hj hlocked
    obtain ⟨hij, hactive⟩ := hother j hj
    have hholder := h.locks j hactive hlocked
    change (if next.isDone && s.lock = some i then none else s.lock) = some j
    rw [hholder, if_neg]
    simpa using fun _ => hij
  · intro j
    by_cases hij : j = i
    · subst hij
      rw [put_phase_self]
      exact doing_inactive hinactive
    · rw [put_phase_of_ne hij]
      exact h.doing j
  · rw [h.logged, State.put, hidle]
    rcases hnext with rfl | rfl <;> simp [Phase.commits]
  · intro j hj
    by_cases hij : j = i
    · subst hij
      rw [put_phase_self] at hj
      rcases hnext with rfl | rfl <;> cases hj
    · rw [put_phase_of_ne hij] at hj
      exact h.succeeded j hj

theorem doing_ready {op : Op} {w : TokenWrite} {now : ℕ} {f : Files} {cur : Option Value}
    (h : op.locked = some (w, now)) : Doing json op f cur (.ready w now) := by
  rintro doc doc' rfl happly
  have hdone : (applyTokens doc w now).toOption = some doc' := by
    rw [happly]
    rfl
  cases op with
  | refresh v at' =>
    obtain ⟨rfl, rfl⟩ := Prod.mk.inj (Option.some.inj h)
    rw [change, Option.bind_some, hdone, Option.map_some]
  | save v at' =>
    obtain ⟨rfl, rfl⟩ := Prod.mk.inj (Option.some.inj h)
    rw [change, Option.bind_some, hdone, Option.map_some]
  | login oauth tokens at' => cases h
  | remove oauth => cases h

omit [DecidableEq ι] in
theorem begins_act {i : ι} (hidle : s.phases i = .idle) (hlocked : (ops i).locked = none) :
    (Action.act i).begins ops s = some i := by
  rw [Action.begins, hidle, hlocked]

theorem cleanup_stepped {op : Op} {f : Files} {cur : Option Value} {p : Phase}
    (holds : Holds json f cur) (formed : Formed f) (hp : p.isDone = false) :
    Stepped json op cur p (p.cleanup f) (.done false) := by
  cases p with
  | changed doc => exact .waiting rfl nofun holds.removeTmp formed.removeTmp trivial
  | opened n doc => exact .waiting rfl nofun holds.removeTmp formed.removeTmp trivial
  | written doc => exact .waiting rfl nofun holds.removeTmp formed.removeTmp trivial
  | done ok => cases hp
  | _ => exact .still rfl nofun holds formed trivial

theorem Inv.ends (h : Inv json ops cur₀ s cur history) {i : ι} {g : Files}
    (hdone : (s.phases i).isDone = false)
    (hstepped : Stepped json (ops i) cur (s.phases i) g (.done false))
    (hidle : s.phases i = .idle → g = s.files)
    (hjson : ∀ c ∈ (s.put i g (.done false)).log, ∀ doc, c.2 = some doc →
      json.serde.fromStr (json.toStringPretty doc) = some doc) :
    ∃ cur' history', Inv json ops cur₀ (s.put i g (.done false)) cur' history' := by
  by_cases hphase : s.phases i = .idle
  · rw [hidle hphase]
    exact ⟨cur, history, h.put_idle hphase (.inr rfl)⟩
  · have hactive : (s.phases i).active := by
      cases hp : s.phases i with
      | idle => exact absurd hp hphase
      | done ok =>
        rw [hp] at hdone
        cases hdone
      | _ => trivial
    exact h.put (fun j hj hj' => hj (h.alone j i hj' hactive)) (fun hnext => hnext.elim) hstepped hjson

theorem Inv.step (h : Inv json ops cur₀ s cur history) {a : Action ι} (hapart : Apart ops s a)
    (hstep : step json ops s a = some t)
    (hjson : ∀ c ∈ t.log, ∀ doc, c.2 = some doc →
      json.serde.fromStr (json.toStringPretty doc) = some doc) :
    ∃ cur' history', Inv json ops cur₀ t cur' history' := by
  cases a with
  | lock i =>
    rw [CredentialStore.step] at hstep
    split at hstep
    · rename_i w now hidle hlocked hfree
      obtain rfl := Option.some.inj hstep
      -- an active writer takes the lock as well, so it has it
      have hnone : ∀ j, ¬ (s.phases j).active := by
        intro j hj
        have hholder := h.locks j hj (hapart i rfl j hj).2
        rw [hfree] at hholder
        cases hholder
      have hholding : Inv json ops cur₀ { s with lock := some i } cur history :=
        ⟨h.holds, h.formed, h.alone, fun j hj => absurd hj (hnone j), h.doing, h.serial, h.logged,
          h.succeeded⟩
      have hstepped : Stepped json (ops i) cur (s.phases i) s.files (.ready w now) := by
        rw [hidle]
        exact .still rfl nofun h.holds h.formed (doing_ready hlocked)
      exact hholding.put (fun j _ => hnone j) (fun _ _ => rfl) hstepped hjson
    · cases hstep
  | act i =>
    rw [CredentialStore.step] at hstep
    split at hstep
    · cases hstep
    · rename_i hdone
      obtain rfl := Option.some.inj hstep
      have hdone : (s.phases i).isDone = false := by simpa using hdone
      have hstepped := act_stepped hdone h.holds h.formed (h.doing i)
      by_cases hactive : (s.phases i).active
      · refine h.put (fun j hj hj' => hj (h.alone j i hj' hactive)) ?_ hstepped hjson
        exact fun _ => h.locks i hactive
      · have hidle : s.phases i = .idle := by
          cases hp : s.phases i with
          | idle => rfl
          | done ok =>
            rw [hp] at hdone
            cases hdone
          | _ =>
            rw [hp] at hactive
            exact absurd trivial hactive
        cases hlocked : (ops i).locked with
        | none =>
          refine h.put (fun j _ hj => ?_) (fun _ hsome => ?_) hstepped hjson
          · have hboth := (hapart i (begins_act hidle hlocked) j hj).1
            rw [hlocked] at hboth
            cases hboth
          · rw [hlocked] at hsome
            cases hsome
        | some write =>
          -- it waits for the lock
          have hwaits : act json (ops i) s.files (s.phases i) = (s.files, .idle) := by
            rw [hidle]
            cases hop : ops i with
            | refresh w now => rfl
            | save w now => rfl
            | _ =>
              rw [hop] at hlocked
              cases hlocked
          rw [hwaits]
          exact ⟨cur, history, h.put_idle hidle (.inl rfl)⟩
  | fail i =>
    rw [CredentialStore.step] at hstep
    split at hstep
    · cases hstep
    · rename_i hdone
      obtain rfl := Option.some.inj hstep
      have hdone : (s.phases i).isDone = false := by simpa using hdone
      refine h.ends hdone (cleanup_stepped h.holds h.formed hdone) (fun hidle => ?_) hjson
      rw [hidle]
      rfl
  | stop i =>
    rw [CredentialStore.step] at hstep
    split at hstep
    · cases hstep
    · rename_i hdone
      obtain rfl := Option.some.inj hstep
      have hdone : (s.phases i).isDone = false := by simpa using hdone
      have hnothing : (s.phases i).commits (.done false) = none := by cases s.phases i <;> rfl
      exact h.ends hdone (.still hnothing nofun h.holds h.formed trivial) (fun _ => rfl) hjson

theorem step_log {a : Action ι} (h : step json ops s a = some t) : s.log ⊆ t.log := by
  have hput : ∀ i g next, s.log ⊆ (s.put i g next).log := by
    intro i g next c hc
    rw [State.put]
    exact List.mem_append_left _ hc
  cases a with
  | lock i =>
    rw [CredentialStore.step] at h
    split at h
    · obtain rfl := Option.some.inj h
      exact hput i s.files _
    · cases h
  | act i =>
    rw [CredentialStore.step] at h
    split at h
    · cases h
    · obtain rfl := Option.some.inj h
      exact hput _ _ _
  | fail i =>
    rw [CredentialStore.step] at h
    split at h
    · cases h
    · obtain rfl := Option.some.inj h
      exact hput _ _ _
  | stop i =>
    rw [CredentialStore.step] at h
    split at h
    · cases h
    · obtain rfl := Option.some.inj h
      exact hput _ _ _

theorem apartRun_inv {files : Files} (hholds : Holds json files cur₀) (hformed : Formed files)
    (hrun : ApartRun json ops (State.initial files) s)
    (hjson : ∀ c ∈ s.log, ∀ doc, c.2 = some doc →
      json.serde.fromStr (json.toStringPretty doc) = some doc) :
    ∃ cur history, Inv json ops cur₀ s cur history := by
  induction hrun with
  | start =>
    exact ⟨cur₀, [], hholds, hformed, fun _ _ hi => hi.elim, fun _ hi => hi.elim, fun _ => trivial,
      .start cur₀, rfl, fun _ hdone => by cases hdone⟩
  | step a before apart hstep ih =>
    obtain ⟨cur, history, hinv⟩ := ih fun c hc => hjson c (step_log hstep hc)
    exact hinv.step apart hstep hjson

end Runs

/-- While logins and removals overlap no other writer, the file is what the committed
operations make of it one after the other: each that succeeded is among them, what
the last to touch an entry wrote there stands, and what none touched is as it was. -/
theorem credential_updates_kept {ι : Type*} [DecidableEq ι] (json : Json) (ops : ι → Op)
    (files : Files) (cur₀ : Option Value) (s : State ι) (hholds : Holds json files cur₀)
    (hformed : Formed files) (hrun : ApartRun json ops (State.initial files) s)
    (hjson : ∀ c ∈ s.log, ∀ doc, c.2 = some doc →
      json.serde.fromStr (json.toStringPretty doc) = some doc) :
    ∃ cur history, Holds json s.files cur ∧ Serial (fun i => change (ops i)) cur₀ history cur ∧
      history.map (fun c => (c.who, c.after)) = s.log ∧
      (∀ i, s.phases i = .done true → ∃ c ∈ history, c.who = i) ∧
      (∀ front c back k, history = front ++ c :: back →
        (∀ later ∈ back, ¬ touches (ops later.who) later.before k) → entry cur k = entry c.after k) ∧
      ∀ k, (∀ c ∈ history, ¬ touches (ops c.who) c.before k) → entry cur k = entry cur₀ k := by
  obtain ⟨cur, history, hinv⟩ := apartRun_inv hholds hformed hrun hjson
  refine ⟨cur, history, hinv.holds, hinv.serial, hinv.logged, hinv.succeeded, ?_, ?_⟩
  · intro front c back k hsplit hlater
    exact hinv.serial.last_touching (change_frames ops) hsplit hlater
  · intro k huntouched
    exact hinv.serial.untouched (change_frames ops) huntouched

def prettyEntry : Value → String
  | .string s => "\"" ++ s ++ "\""
  | .object [] => "\x7b\x7d"
  | .object fields => "\x7b\n    " ++ ",\n    ".intercalate (fields.map fun f =>
      "\"" ++ f.1 ++ "\": \"" ++ (f.2.asStr?).getD "" ++ "\"") ++ "\n  \x7d"
  | _ => "null"

/-- `to_string_pretty` of a document whose entries are strings or objects of strings. -/
def prettyDoc : Value → String
  | .object fields => "\x7b\n  " ++ ",\n  ".intercalate (fields.map fun f =>
      "\"" ++ f.1 ++ "\": " ++ prettyEntry f.2) ++ "\n\x7d"
  | _ => "null"

/-- The entry of one profile with its key, and the entries after it. -/
def profiles (key : String) (rest : List (String × Value)) : Value :=
  .object (("https://a.com::x", .object [("key", key)]) :: rest)

def otherProfile : List (String × Value) := [("https://b.com::y", .object [])]

/-- `serde_json` on the documents of the runs below. -/
def profileJson : Json where
  serde := ⟨fun text => [profiles "old" otherProfile, profiles "new" otherProfile,
    profiles "old" [], profiles "new" []].find? fun doc => prettyDoc doc = text, prettyDoc⟩
  toStringPretty := prettyDoc

def otherPack : OauthPack where
  tokenUrl := "https://b.com/token"
  clientId := some "y"
  credsFormat := some .oidcAuthJson

/-- A refresh of the first profile, and the removal of the other. -/
def refreshAndRemoval : Bool → Op
  | true => .refresh { accessPtr := "/https:~1~1a.com::x/key", accessToken := "new" } 0
  | false => .remove otherPack

def profileFiles : Files :=
  ⟨fun _ => utf8 (prettyDoc (profiles "old" otherProfile)).toList, some 0, none, 1⟩

theorem profileFiles_holds : Holds profileJson profileFiles (some (profiles "old" otherProfile)) :=
  .present rfl rfl (EventStreamWriting.fromUtf8_utf8 _) rfl

theorem profileFiles_formed : Formed profileFiles :=
  ⟨fun _ _ => nofun, fun _ hfile => Option.some.inj hfile ▸ Nat.one_pos, nofun⟩

section
variable {ι : Type*} [DecidableEq ι] {ops : ι → Op} {s : State ι} {a : Action ι}

omit [DecidableEq ι] in
theorem apart_of_begun (h : a.begins ops s = none) : Apart ops s a := by
  intro i hi
  rw [h] at hi
  cases hi

omit [DecidableEq ι] in
theorem apart_of_inactive (h : ∀ j, ¬ (s.phases j).active) : Apart ops s a :=
  fun _ _ j hj => absurd hj (h j)

end

theorem credential_updates_kept_refresh : ∃ s : State Bool,
    ApartRun profileJson refreshAndRemoval (State.initial profileFiles) s ∧
      s.phases true = .done true ∧
      ∃ cur history, Holds profileJson s.files cur ∧
        Serial (fun i => change (refreshAndRemoval i)) (some (profiles "old" otherProfile)) history cur ∧
        history.map (fun c => (c.who, c.after)) = s.log := by
  have hstart : ApartRun profileJson refreshAndRemoval (State.initial profileFiles)
      (State.initial profileFiles) := .start
  have hlocked := hstart.step (.lock true) (apart_of_inactive fun _ => id) rfl
  have hread := hlocked.step (.act true) (apart_of_begun rfl) rfl
  have hopened := hread.step (.act true) (apart_of_begun rfl) rfl
  have hwritten := hopened.step (.act true) (apart_of_begun rfl) rfl
  have hrenamed := hwritten.step (.act true) (apart_of_begun rfl) rfl
  obtain ⟨cur, history, hholds, hserial, hlog, _⟩ := credential_updates_kept profileJson
    refreshAndRemoval profileFiles _ _ profileFiles_holds profileFiles_formed hrenamed fun c hc doc hdoc => by
      obtain rfl := List.mem_singleton.mp hc
      obtain rfl := Option.some.inj hdoc
      rfl
  exact ⟨_, hrenamed, rfl, cur, history, hholds, hserial, hlog⟩

def overlapping : List (Action Bool) :=
  [.act false, .act false, .lock true, .act true, .act true, .act true, .act true, .act false,
    .act false, .act false]

theorem overlapping_ends :
    (run profileJson refreshAndRemoval (State.initial profileFiles) overlapping).isSome = true := by
  decide +kernel

/-- Both report success, and the new token is gone: the removal wrote the old one back. -/
theorem removal_loses_refresh : ¬ ∀ (json : Json) (ops : Bool → Op) (files : Files)
    (cur₀ : Option Value) (actions : List (Action Bool)) (s : State Bool), Holds json files cur₀ →
    Formed files → run json ops (State.initial files) actions = some s →
    (∀ c ∈ s.log, ∀ doc, c.2 = some doc → json.serde.fromStr (json.toStringPretty doc) = some doc) →
    ∃ cur history, Holds json s.files cur ∧ Serial (fun i => change (ops i)) cur₀ history cur ∧
      history.map (fun c => (c.who, c.after)) = s.log := by
  intro hall
  obtain ⟨cur, history, _, hserial, hlog⟩ := hall profileJson refreshAndRemoval profileFiles _ overlapping
    _ profileFiles_holds profileFiles_formed (Option.some_get overlapping_ends).symm
    fun c hc doc hdoc => by
      rcases List.mem_pair.mp hc with rfl | rfl
      · obtain rfl := Option.some.inj hdoc
        rfl
      · obtain rfl := Option.some.inj hdoc
        rfl
  have hcommits : history.map (fun c => (c.who, c.after)) =
      [(true, some (profiles "new" otherProfile)), (false, some (profiles "old" []))] := hlog
  obtain ⟨first, tail, rfl, hfirst, htail⟩ := List.map_eq_cons_iff.mp hcommits
  obtain ⟨second, rest, rfl, hsecond, hrest⟩ := List.map_eq_cons_iff.mp htail
  obtain rfl := List.map_eq_nil_iff.mp hrest
  -- the removal has to start from the document of the refresh
  have hback := (hserial.split (show _ = [] ++ first :: [second] from rfl)).2.2
  obtain ⟨hstart, hlast, _⟩ := hback.split (show [second] = [] ++ second :: [] from rfl)
  obtain ⟨hwho, hafter⟩ := Prod.mk.inj hsecond
  rw [hstart.eq_of_nil rfl, (Prod.mk.inj hfirst).2, hwho, hafter] at hlast
  have hremoved : change (refreshAndRemoval false) (some (profiles "new" otherProfile)) =
      some (some (profiles "new" [])) := rfl
  have hkeys : some "new" = some "old" := congrArg
    (fun left : Option (Option Value) => (left.bind fun doc => entry doc "https://a.com::x").bind
      fun profile => profile.strAt? "key") (hremoved.symm.trans hlast)
  exact absurd hkeys (by decide)

end Wiremux.CredentialRuns
