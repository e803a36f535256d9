import Mathlib.Data.List.Nodup
import Wiremux.CredentialLens
import Wiremux.EmittingRuns
import Wiremux.SharedRefresh
import Wiremux.StoreEntries

set_option autoImplicit false

/-!
# One store entry over a run

The pointers chosen at load time and the entry chosen anew on each reload agree as long
as no other entry stands for the pack's key.
-/
namespace Wiremux.StoreEntries
open JsonValue CredentialPointers CredentialWriteback CredentialLens StoreReading
open EmittingRuns (map_eq_ok)
open ProfileTokens (Pack Phase Place Reloaded StoreTokens newEvents adoptFromStore Base Effect core)

theorem headToken_entryPtr (key : String) {field : String} {rest : List Char}
    (hfield : field.toList = '/' :: rest) : headToken (entryPtr key field) = some key := by
  have hlist : (entryPtr key field).toList = '/' :: (escapeChars key.toList ++ '/' :: rest) := by
    simp only [entryPtr, String.toList_append, escapePointerToken, String.toList_ofList, hfield]
    rfl
  have hsplit : (escapeChars key.toList ++ '/' :: rest).splitOn '/' =
      escapeChars key.toList :: rest.splitOn '/' := by
    refine List.splitOn_append_cons_of_forall_mem_beq_eq_false (fun c hc => ?_) _ (by decide) _
    simpa using fun heq : c = '/' => escapeChars_no_slash _ (heq ▸ hc)
  unfold headToken pointerTokens
  rw [hlist]
  simp only [hsplit, List.map_cons, unescapePointerToken, String.toList_ofList, replace_slashes,
    replace_tildes, String.ofList_toList, Option.bind_some, List.head?_cons]

/-- What a pointer reads is below a key of the object, or below an index of the array. -/
theorem key_of_pointerGet {doc v : Value} {ptr key : String} (h : pointerGet doc ptr = some v)
    (hhead : headToken ptr = some key) : key ∈ keysOf doc ∨ (parseUsize key).isSome := by
  obtain ⟨tokens, htokens, hfirst⟩ := Option.bind_eq_some_iff.mp hhead
  rw [pointerGet_tokens htokens] at h
  rcases tokens with _ | ⟨token, rest⟩
  · cases hfirst
  obtain rfl : token = key := Option.some.inj hfirst
  cases doc with
  | object fields =>
    obtain ⟨member, hmember, -⟩ := Option.bind_eq_some_iff.mp h
    refine Or.inl (List.mem_map.mpr ⟨(token, member), ?_, rfl⟩)
    obtain ⟨before, after, rfl, -⟩ := List.lookup_eq_some_iff.mp hmember
    simp
  | array items =>
    obtain ⟨i, hi, -⟩ := Option.bind_eq_some_iff.mp h
    exact Or.inr (hi ▸ rfl)
  | _ => cases h

theorem parseUsize_of_colon {token : String} (h : ':' ∈ token.toList) : parseUsize token = none := by
  have hdigits : ∀ digits : List Char, ':' ∈ digits → digits.all Char.isDigit = false := by
    intro digits hcolon
    rw [List.all_eq_false]
    exact ⟨':', hcolon, by decide⟩
  unfold parseUsize
  split
  · rename_i rest heq
    rw [heq] at h
    simp [hdigits rest (by simpa using h)]
  · simp [hdigits _ h]

theorem colon_of_wanted {oauth : OauthPack} {want : String} (h : wanted oauth = some want) :
    ':' ∈ want.toList := by
  obtain ⟨pair, -, rfl⟩ := Option.map_eq_some_iff.mp h
  simp [oidcProfileKey]

theorem onlyMatch_spec {want key : String} {refusal : ℕ → String} {found : List String}
    (h : onlyMatch want refusal found = .ok key) : key = want ∨ found = [key] := by
  unfold onlyMatch at h
  split at h
  · exact Or.inl (Except.ok.inj h).symm
  · exact Or.inr (by rw [Except.ok.inj h])
  · cases h

theorem standsFor_of_select {doc : Value} {want key : String}
    (h : selectOidcEntryKey (some doc) want = .ok key) : StandsFor doc want key := by
  unfold selectOidcEntryKey at h
  split at h
  · rename_i fields heq
    obtain rfl := Option.some.inj heq
    simp only at h
    split at h
    · exact Or.inl (Except.ok.inj h).symm
    · rename_i hmissing
      have hwant : want ∉ keysOf (.object fields) := by simpa [keysOf] using hmissing
      have honly : ∀ found : List String, (∀ other, other ∈ found ↔ other ∈ keysOf (.object fields) ∧
          belongs want other) → (key = want ∨ found = [key]) → StandsFor (.object fields) want key := by
        rintro found hfound (hkey | hkey)
        · exact Or.inl hkey
        · have hmem : key ∈ found := by simp [hkey]
          refine Or.inr ⟨hwant, ((hfound key).mp hmem).1, fun other hother => ⟨fun hbelongs => ?_, ?_⟩⟩
          · simpa [hkey] using (hfound other).mpr ⟨hother, hbelongs⟩
          · rintro rfl
            exact ((hfound other).mp hmem).2
      split at h
      · rename_i issuer hissuer
        refine honly _ (fun other => ?_) (onlyMatch_spec h)
        rw [belongs, hissuer]
        exact List.mem_filter
      · rename_i hissuer
        refine honly _ (fun other => ?_) (onlyMatch_spec h)
        rw [belongs, hissuer]
        exact List.mem_filter
  · exact Or.inl (Except.ok.inj h).symm

theorem select_of_standsFor {doc : Value} {want key : String} (hkeys : (keysOf doc).Nodup)
    (hmem : key ∈ keysOf doc) (h : StandsFor doc want key) :
    selectOidcEntryKey (some doc) want = .ok key := by
  cases doc with
  | object fields =>
    rcases h with rfl | ⟨hmissing, -, honly⟩
    · exact if_pos (by simpa [keysOf] using hmem)
    · have hfilter : (keysOf (.object fields)).filter (belongs want) = [key] := by
        have hsame : (keysOf (.object fields)).filter (belongs want) =
            (keysOf (.object fields)).filter (· == key) := by
          refine List.filter_congr fun other hother => ?_
          rw [Bool.eq_iff_iff, honly other hother, beq_iff_eq]
        rw [hsame, List.filter_beq, List.count_eq_one_of_mem hkeys hmem, List.replicate_one]
      have habsent : (fields.map Prod.fst).contains want = false := by
        rw [List.contains_eq_mem]
        exact decide_eq_false hmissing
      unfold selectOidcEntryKey
      simp only [habsent, Bool.false_eq_true, if_false]
      unfold belongs at hfilter
      cases hissuer : (stripSuffix "::" want).filter (· ≠ "") with
      | some issuer =>
        simp only [hissuer, keysOf] at hfilter
        simp only [hfilter, onlyMatch]
      | none =>
        simp only [hissuer, keysOf] at hfilter
        simp only [hfilter, onlyMatch]
  | _ => cases hmem

/-- The pointers of a pack are those of the entry that is selected for its key. -/
theorem oidcStorePointers_spec {oauth : OauthPack} {doc : Value} {ptrs : String × String × String}
    (h : oidcStorePointers oauth (some doc) = .ok (some ptrs)) :
    ∃ want key, wanted oauth = some want ∧ selectOidcEntryKey (some doc) want = .ok key ∧
      ptrs = (entryPtr key "/key", entryPtr key "/refresh_token", entryPtr key "/expires_at") := by
  unfold oidcStorePointers at h
  split at h
  · cases h
  · split at h
    · cases h
    · cases hissuer : oidcIssuerAndClient oauth with
      | error e =>
        rw [hissuer] at h
        cases h
      | ok pair =>
        simp only [hissuer, Option.isNone_some, Bool.and_false, Bool.false_eq_true, if_false] at h
        cases hkey : selectOidcEntryKey (some doc) (oidcProfileKey pair.1 pair.2) with
        | error e =>
          rw [hkey] at h
          cases h
        | ok key =>
          rw [hkey] at h
          refine ⟨_, key, by rw [wanted, hissuer]; rfl, hkey, ?_⟩
          exact (Option.some.inj (Except.ok.inj h)).symm

theorem oidcStorePointers_ne_none {oauth : OauthPack} {doc : Option Value}
    (hformat : oauth.credsFormat = some .oidcAuthJson) (hptr : oauth.accessTokenPtr = none) :
    oidcStorePointers oauth doc ≠ .ok none := by
  unfold oidcStorePointers
  rw [if_neg (by simp [hformat]), if_neg (by simp [hptr])]
  split
  · exact nofun
  · split
    · exact nofun
    · cases selectOidcEntryKey doc _ <;> exact nofun

/-- The layout is that of the pack: the pack's own pointers, or an entry's. -/
def Fits (oauth : OauthPack) (own : Source) : Prop :=
  oauth.credsFormat = some .oidcAuthJson ∧
    match oauth.accessTokenPtr with
    | some ptr => own = (ptr, oauth.refreshTokenPtr)
    | none => ∃ key, own = (entryPtr key "/key", some (entryPtr key "/refresh_token"))

theorem fits_resolveLayout {oauth : OauthPack} {doc : Value} {layout : StoreLayout}
    (hformat : oauth.credsFormat = some .oidcAuthJson)
    (h : resolveLayout oauth (some doc) = .ok layout) :
    (∀ ptr, oauth.accessTokenPtr = some ptr → source layout = (ptr, oauth.refreshTokenPtr)) ∧
      (oauth.accessTokenPtr = none → ∃ want key, wanted oauth = some want ∧
        selectOidcEntryKey (some doc) want = .ok key ∧
        source layout = (entryPtr key "/key", some (entryPtr key "/refresh_token"))) := by
  simp only [resolveLayout, looksLikeClaude, hformat, Option.some.injEq, reduceCtorEq, decide_false,
    Bool.or_self, Bool.false_eq_true, if_false] at h
  cases hptr : oauth.accessTokenPtr with
  | some ptr =>
    rw [hptr] at h
    obtain rfl := (Except.ok.inj h).symm
    exact ⟨fun _ heq => by rw [← Option.some.inj heq]; rfl, nofun⟩
  | none =>
    rw [hptr] at h
    refine ⟨nofun, fun _ => ?_⟩
    cases hptrs : oidcStorePointers oauth (some doc) with
    | error e =>
      simp only [hptrs] at h
      cases h
    | ok found =>
      cases found with
      | none => exact absurd hptrs (oidcStorePointers_ne_none hformat hptr)
      | some ptrs =>
        obtain ⟨want, key, hwant, hkey, rfl⟩ := oidcStorePointers_spec hptrs
        simp only [hptrs] at h
        obtain rfl := (Except.ok.inj h).symm
        exact ⟨want, key, hwant, hkey, rfl⟩

theorem tokens_fst {doc : Value} {layout : StoreLayout} {now : ℕ} {tokens : DocTokens}
    (h : tokensFromDoc doc layout now = some tokens) :
    (pointerGet doc layout.accessPtr).bind jsonString = some tokens.1 := by
  obtain ⟨access, haccess, rfl⟩ := Option.map_eq_some_iff.mp h
  exact haccess

/-- A reload that meets the condition reads from the entry of the write-back pointers, or
reads the access token that is cached. -/
theorem read_own {S : State} {i now : ℕ} {store : StoreTokens}
    (hfits : Fits S.oauth (source S.layout)) (hreads : reads S now (.ok (some store)))
    (hstays : Stays S (.act (.reload i (.ok (some store))) now)) :
    readBy S (.reload i (.ok (some store))) = source S.layout ∨
      store.access = S.provider.cached.access := by
  cases hdoc : S.doc with
  | none => simp [reads, hdoc] at hreads
  | some doc =>
    simp only [reads, hdoc, Option.any_some] at hreads
    simp only [readBy, hdoc, Option.elim_some]
    cases htokens : storeTokensFromJson S.oauth S.layout doc now with
    | none => simp [htokens] at hreads
    | some tokens =>
      simp only [htokens, Option.any_some, Bool.and_eq_true, decide_eq_true_eq] at hreads
      obtain ⟨hformat, hown⟩ := hfits
      have hread := tokens_fst (Option.filter_eq_some_iff.mp htokens).1
      cases hlayout : resolveLayout S.oauth (some doc) with
      | error e =>
        rw [reloadLayout, hlayout]
        exact Or.inl rfl
      | ok layout =>
        have hreload : reloadLayout S.oauth S.layout doc = layout := by rw [reloadLayout, hlayout]; rfl
        rw [hreload] at hread ⊢
        obtain ⟨hgiven, hentry⟩ := fits_resolveLayout hformat hlayout
        cases hptr : S.oauth.accessTokenPtr with
        | some ptr =>
          rw [hptr] at hown
          exact Or.inl ((hgiven ptr hptr).trans hown.symm)
        | none =>
          obtain ⟨want, key, hwant, hselect, hsource⟩ := hentry hptr
          have hstands := standsFor_of_select hselect
          rw [hptr] at hown
          obtain ⟨loaded, hloaded⟩ := hown
          have haccess : layout.accessPtr = entryPtr key "/key" := congrArg Prod.fst hsource
          rw [haccess] at hread
          obtain ⟨v, hv, -⟩ := Option.bind_eq_some_iff.mp hread
          have hkey : key ∈ keysOf doc := by
            rcases key_of_pointerGet hv (headToken_entryPtr key rfl) with hmem | hindex
            · exact hmem
            · -- an index is not the wanted key
              rcases hstands with rfl | ⟨-, hmem, -⟩
              · rw [parseUsize_of_colon (colon_of_wanted hwant)] at hindex
                cases hindex
              · exact hmem
          have hcond := (hstays.resolve_left (by simp [hptr])) doc hdoc want hwant key hkey hstands
            tokens.1 hread
          rcases hcond with hcached | hsame
          · exact Or.inr (hreads.1.trans hcached)
          · refine Or.inl ?_
            obtain rfl : loaded = key := by
              have hptrs : entryPtr loaded "/key" = entryPtr key "/key" := (congrArg Prod.fst hloaded).symm.trans hsame
              have hheads := congrArg headToken hptrs
              rw [headToken_entryPtr loaded rfl, headToken_entryPtr key rfl] at hheads
              exact Option.some.inj hheads
            exact hsource.trans hloaded.symm

structure Inv (S : State) : Prop where
  base : Base S.provider
  fits : Fits S.oauth (source S.layout)
  held : S.cachedFrom = source S.layout
  read : ∀ store, S.provider.place = .adopting store →
    S.readFrom = source S.layout ∨ store.access = S.provider.cached.access
  once : OneEntry S

theorem place_of_reload {pack : Pack} {s s' : ProfileTokens.State} {i : ℕ} {outcome : Reloaded}
    (h : Base s) (hstep : ProfileTokens.step pack s (.reload i outcome) = some s') :
    s.place = .locked := by
  have hcall : (s.calls i).leads ∧ (s.calls i).place = .locked := by
    change ProfileTokens.reloaded pack s i outcome = some s' at hstep
    unfold ProfileTokens.reloaded at hstep
    split at hstep
    · rename_i hi
      rw [hi]
      exact ⟨rfl, rfl⟩
    · rename_i hi
      rw [hi]
      exact ⟨rfl, rfl⟩
    · rename_i hi
      rw [hi]
      exact ⟨rfl, rfl⟩
    · cases hstep
  exact (h.place_leader hcall.1).trans hcall.2

/-- What a step adopts: what the place or the reload gives, unlike the cached token. -/
structure Adopts (s s' : ProfileTokens.State) (a : ProfileTokens.Action) (store : StoreTokens) : Prop where
  adopted : adoptFromStore s.cached store = some s'.cached
  given : s.place = .adopting store ∨ s.place = .locked ∧ ∃ i, a = .reload i (.ok (some store))
  after : ∀ store', s'.place ≠ .adopting store'

/-- What a step leaves of the cached tokens and of the tokens about to be adopted. -/
structure Leaves (s s' : ProfileTokens.State) (a : ProfileTokens.Action) : Prop where
  quiet : .adopted ∉ newEvents s.log s'.log
  kept : ∀ store, s'.place = .adopting store → s'.cached.access = s.cached.access ∧
    (s.place = .adopting store ∨ ∃ i, a = .reload i (.ok (some store)))

theorem leaves_of_core {s s' : ProfileTokens.State} {a : ProfileTokens.Action} {l : List ProfileTokens.Event}
    (hlog : s'.log = l ++ s.log) (hl : .adopted ∉ l) (hcore : core s'.cached = core s.cached)
    (hplace : ∀ store, s'.place = .adopting store →
      s.place = .adopting store ∨ ∃ i, a = .reload i (.ok (some store))) : Leaves s s' a where
  quiet := by rwa [hlog, ProfileTokens.newEvents_append]
  kept store hstore := ⟨congrArg Prod.fst hcore, hplace store hstore⟩

theorem leaves_of_place {s s' : ProfileTokens.State} {a : ProfileTokens.Action} {l : List ProfileTokens.Event}
    (hlog : s'.log = l ++ s.log) (hl : .adopted ∉ l) (hplace : ∀ store, s'.place ≠ .adopting store) :
    Leaves s s' a where
  quiet := by rwa [hlog, ProfileTokens.newEvents_append]
  kept store hstore := absurd hstore (hplace store)

theorem adopts_or_leaves {s s' : ProfileTokens.State} {a : ProfileTokens.Action} (h : Effect s s' a) :
    (∃ store, Adopts s s' a store) ∨ Leaves s s' a := by
  cases h with
  | rest hcore hlog hplace =>
    refine Or.inr (leaves_of_core (l := []) hlog (by simp) hcore fun store hstore => ?_)
    rcases hplace with hsame | ⟨-, hout | hlocked⟩
    · exact Or.inl (hsame.symm.trans hstore)
    · rw [hout] at hstore
      cases hstore
    · rw [hlocked] at hstore
      cases hstore
  | lock hcore hlog hplace => exact Or.inr (leaves_of_place (l := []) hlog (by simp) (by simp [hplace.2]))
  | abandon hcore hlog hplace => exact Or.inr (leaves_of_place (l := []) hlog (by simp) (by simp [hplace.2]))
  | returned hcore hlog hplace =>
    exact Or.inr (leaves_of_core (l := [.returned]) hlog (by simp) hcore fun store hstore =>
      Or.inl (hplace.symm.trans hstore))
  | looked hcore hlog hplace =>
    refine Or.inr (leaves_of_core (l := []) hlog (by simp) hcore fun store hstore => Or.inr ?_)
    rw [hplace.2] at hstore
    exact ⟨_, by rw [Place.adopting.inj hstore]⟩
  | adopted hcached hlog hplace => exact Or.inl ⟨_, hcached, Or.inl hplace.1, by simp [hplace.2]⟩
  | asked hreloading hsaved hplace hcached hsent =>
    rename_i log
    have hafter : ∀ store', s'.place ≠ .adopting store' := by
      intro store'
      rcases hsent with ⟨hout, -⟩ | ⟨token, hposting, -⟩
      · simp [hout]
      · simp [hposting]
    rcases hcached with ⟨-, rfl, -⟩ | ⟨store, houtcome, hadopted, -⟩
    · rcases hsent with ⟨-, hlog⟩ | ⟨token, -, -, hlog⟩
      · exact Or.inr (leaves_of_place (l := []) hlog (by simp) hafter)
      · exact Or.inr (leaves_of_place (l := [.posted token]) hlog (by simp) hafter)
    · exact Or.inl ⟨store, hadopted, Or.inr ⟨hplace, _, by rw [houtcome]⟩, hafter⟩
  | accepted hcore hlog hsaved hposting hplace =>
    exact Or.inr (leaves_of_place (l := [.accepted _]) hlog (by simp) (by simp [hplace.2]))
  | written hlog hcore hplace => exact Or.inr (leaves_of_place (l := []) hlog (by simp) (by simp [hplace.2]))
  | saved hcore hlog hplace =>
    exact Or.inr (leaves_of_place (l := [.saved]) hlog (by simp) (by simp [hplace.2]))
  | unsaved hcore hlog hplace => exact Or.inr (leaves_of_place (l := []) hlog (by simp) (by simp [hplace.2]))
  | cleared hlog haccess hunsaved hplace =>
    exact Or.inr (leaves_of_place (l := []) hlog (by simp) (by simp [hplace.2]))
  | retried hcore hlog hunsaved hplace =>
    exact Or.inr (leaves_of_place (l := []) hlog (by simp) (by simp [hplace.2]))

theorem readBy_of_adopting {S : State} {a : ProfileTokens.Action} {pack : Pack} {s' : ProfileTokens.State}
    {store : StoreTokens} (h : Base S.provider) (hstep : ProfileTokens.step pack S.provider a = some s')
    (hplace : S.provider.place = .adopting store) : readBy S a = S.readFrom := by
  cases a with
  | reload i outcome =>
    rw [place_of_reload h hstep] at hplace
    cases hplace
  | _ => rfl

theorem Inv.adopted_own {pack : Pack} {S : State} (h : Inv S) {a : ProfileTokens.Action} {now : ℕ}
    {s' : ProfileTokens.State} (hpermitted : permitted S now a) (hstays : Stays S (.act a now))
    (hstep : ProfileTokens.step pack S.provider a = some s') {store : StoreTokens}
    (hadopts : Adopts S.provider s' a store) : readBy S a = source S.layout := by
  have hunlike : store.access ≠ S.provider.cached.access := by
    have hadopted := hadopts.adopted
    unfold adoptFromStore at hadopted
    split at hadopted
    · cases hadopted
    · rename_i hnone
      simp only [Bool.or_eq_true, decide_eq_true_eq, not_or] at hnone
      exact hnone.2
  rcases hadopts.given with hplace | ⟨-, i, rfl⟩
  · rw [readBy_of_adopting h.base hstep hplace]
    exact (h.read store hplace).resolve_right hunlike
  · exact (read_own h.fits hpermitted hstays).resolve_right hunlike

theorem Inv.act {pack : Pack} {S : State} (h : Inv S) {a : ProfileTokens.Action} {now : ℕ}
    {s' : ProfileTokens.State} (hpermitted : permitted S now a) (hstays : Stays S (.act a now))
    (hstep : ProfileTokens.step pack S.provider a = some s') : Inv (put S a now s') := by
  obtain ⟨hbase, heffect⟩ := h.base.turn hstep
  rcases adopts_or_leaves heffect with ⟨store, hadopts⟩ | hleaves
  · have hown := h.adopted_own hpermitted hstays hstep hadopts
    refine ⟨hbase, h.fits, ?_, fun store' hstore' => absurd hstore' (hadopts.after store'), ?_⟩
    · change (if _ then readBy S a else S.cachedFrom) = source S.layout
      rw [hown, h.held, ite_self]
    · intro e he
      simp only [put, hown, h.held, List.mem_append] at he
      rcases he with (he | he) | he
      · split at he <;> simp_all
      · split at he <;> simp_all
      · exact h.once e he
  · have hquiet : (newEvents S.provider.log s'.log).contains .adopted = false := by
      simpa using hleaves.quiet
    refine ⟨hbase, h.fits, ?_, ?_, ?_⟩
    · change (if (newEvents S.provider.log s'.log).contains .adopted then readBy S a else S.cachedFrom) = _
      rw [hquiet]
      exact h.held
    · intro store hstore
      obtain ⟨haccess, hfrom⟩ := hleaves.kept store hstore
      change readBy S a = source S.layout ∨ store.access = s'.cached.access
      rw [haccess]
      rcases hfrom with hplace | ⟨i, rfl⟩
      · rw [readBy_of_adopting h.base hstep hplace]
        exact h.read store hplace
      · exact read_own h.fits hpermitted hstays
    · intro e he
      simp only [put, hquiet, h.held, Bool.false_eq_true, if_false, List.nil_append, List.mem_append] at he
      rcases he with he | he
      · split at he <;> simp_all
      · exact h.once e he

theorem Inv.step {pack : Pack} {S S' : State} {a : Action} (h : Inv S) (hstays : Stays S a)
    (hstep : step pack S a = some S') : Inv S' := by
  cases a with
  | change doc =>
    cases hstep
    exact ⟨h.base, h.fits, h.held, h.read, h.once⟩
  | act a now =>
    rw [StoreEntries.step] at hstep
    split at hstep
    · rename_i hpermitted
      obtain ⟨s', hs, rfl⟩ := Option.map_eq_some_iff.mp hstep
      exact h.act hpermitted hstays hs
    · cases hstep

theorem adoptOidcClientId_pack (oauth : OauthPack) (accessPtr : String) :
    ∃ client, adoptOidcClientId oauth accessPtr = { oauth with clientId := client } := by
  unfold adoptOidcClientId
  split
  · exact ⟨oauth.clientId, rfl⟩
  · split
    · exact ⟨oauth.clientId, rfl⟩
    · exact ⟨_, rfl⟩

theorem openStore_spec {tokenUrlAllowed : String → Bool} {hint : String} {oauth : OauthPack} {doc : Value}
    {now : ℕ} {opened : Opened} (h : openStore tokenUrlAllowed hint oauth doc now = .ok opened) :
    resolveLayout oauth (some doc) = .ok opened.layout ∧
      ∃ client url, opened.oauth = { oauth with clientId := client, tokenUrl := url } := by
  unfold openStore at h
  cases hload : loadDocument hint oauth doc now with
  | error e =>
    rw [hload] at h
    cases h
  | ok loaded =>
    have hlayout : resolveLayout oauth (some doc) = .ok loaded.layout := by
      unfold loadDocument at hload
      split at hload
      · cases hload
      · rename_i layout hlayout
        split at hload
        · cases hload
        · split at hload
          · cases hload
          · obtain rfl := Except.ok.inj hload
            exact hlayout
    obtain ⟨client, hclient⟩ := adoptOidcClientId_pack oauth loaded.layout.accessPtr
    rw [hload] at h
    simp only [Except.bind, fromLoaded, hclient] at h
    split at h
    · cases h
    · split at h
      · cases h
      · obtain rfl := Except.ok.inj h
        refine ⟨hlayout, client, ?_⟩
        split
        · exact ⟨_, rfl⟩
        · exact ⟨oauth.tokenUrl, rfl⟩

theorem Inv.start {tokenUrlAllowed : String → Bool} {hint : String} {oauth : OauthPack} {doc : Value}
    {now : ℕ} {opened : Opened} (hformat : oauth.credsFormat = some .oidcAuthJson)
    (h : openStore tokenUrlAllowed hint oauth doc now = .ok opened) (needsRefresh : Bool) :
    Inv (start opened doc needsRefresh) := by
  obtain ⟨hlayout, client, url, hpack⟩ := openStore_spec h
  obtain ⟨hgiven, hentry⟩ := fits_resolveLayout hformat hlayout
  refine ⟨Base.start, ?_, rfl, fun store hstore => (by cases hstore), fun e he => (by cases he)⟩
  change Fits opened.oauth (source opened.layout)
  rw [hpack]
  refine ⟨hformat, ?_⟩
  simp only
  split
  · rename_i ptr hptr
    exact hgiven ptr hptr
  · rename_i hptr
    obtain ⟨want, key, -, -, hsource⟩ := hentry hptr
    exact ⟨key, hsource⟩

section Document
variable {tokenUrlAllowed : String → Bool} {hint : String} {oauth : OauthPack} {doc : Value} {key : String}

theorem entryKey_spec (h : entryKey oauth doc = .ok key) :
    ∃ want, wanted oauth = some want ∧ selectOidcEntryKey (some doc) want = .ok key := by
  unfold entryKey at h
  cases hissuer : oidcIssuerAndClient oauth with
  | error e =>
    rw [hissuer] at h
    cases h
  | ok pair =>
    rw [hissuer] at h
    exact ⟨_, by rw [wanted, hissuer]; rfl, h⟩

theorem mem_of_removeEntry {left : Option Value} (h : removeEntry oauth doc = .ok left)
    (hkey : entryKey oauth doc = .ok key) : key ∈ keysOf doc := by
  unfold removeEntry at h
  unfold entryKey at hkey
  split at h
  · cases h
  · rename_i hobject
    cases hissuer : oidcIssuerAndClient oauth with
    | error e =>
      rw [hissuer] at hkey
      cases hkey
    | ok pair =>
      rw [hissuer] at h hkey
      simp only at h hkey
      simp only [hkey] at h
      split at h
      · cases h
      · rename_i hmember
        cases doc with
        | object fields =>
          obtain ⟨v, hv⟩ := Option.ne_none_iff_exists'.mp (by simpa using hmember)
          obtain ⟨before, after, rfl, -⟩ := List.lookup_eq_some_iff.mp hv
          simp [keysOf]
        | _ => cases hmember rfl

theorem persist_spec {ptrs : PersistPtrs} (hformat : oauth.credsFormat = some .oidcAuthJson)
    (h : persistStorePointers oauth (some doc) = .ok ptrs) :
    (∀ ptr, oauth.accessTokenPtr = some ptr → ptrs.access = ptr) ∧
      (oauth.accessTokenPtr = none → ∃ want key, wanted oauth = some want ∧
        selectOidcEntryKey (some doc) want = .ok key ∧ ptrs.access = entryPtr key "/key") := by
  unfold persistStorePointers at h
  cases hptr : oauth.accessTokenPtr with
  | some ptr =>
    have hnone : oidcStorePointers oauth (some doc) = .ok none := by
      rw [oidcStorePointers, if_neg (by simp [hformat]), if_pos (by simp [hptr])]
    have hcopilot : copilotStorePointers oauth (some doc) = none := by
      rw [copilotStorePointers, if_pos (by simp [hformat])]
    simp only [hnone, hcopilot, hptr] at h
    obtain rfl := Except.ok.inj h
    exact ⟨fun _ heq => Option.some.inj heq, nofun⟩
  | none =>
    refine ⟨nofun, fun _ => ?_⟩
    cases hptrs : oidcStorePointers oauth (some doc) with
    | error e =>
      simp only [hptrs] at h
      cases h
    | ok found =>
      cases found with
      | none => exact absurd hptrs (oidcStorePointers_ne_none hformat hptr)
      | some triple =>
        obtain ⟨want, key, hwant, hkey, rfl⟩ := oidcStorePointers_spec hptrs
        simp only [hptrs] at h
        obtain rfl := Except.ok.inj h
        exact ⟨want, key, hwant, hkey, rfl⟩

def Selected (oauth : OauthPack) (doc : Value) (key : String) : Prop :=
  ∃ want, wanted oauth = some want ∧ selectOidcEntryKey (some doc) want = .ok key

theorem Selected.unique {other : String} (h : Selected oauth doc key) (hother : Selected oauth doc other) :
    key = other := by
  obtain ⟨want, hwant, hkey⟩ := h
  obtain ⟨want', hwant', hkey'⟩ := hother
  obtain rfl := Option.some.inj (hwant.symm.trans hwant')
  exact Except.ok.inj (hkey.symm.trans hkey')

theorem selected_of_ptr {access : String} (hkey : headToken access = some key)
    (hptr : oauth.accessTokenPtr = none)
    (h : oauth.accessTokenPtr = none → ∃ want key, wanted oauth = some want ∧
      selectOidcEntryKey (some doc) want = .ok key ∧ access = entryPtr key "/key") :
    Selected oauth doc key := by
  obtain ⟨want, selected, hwant, hselect, rfl⟩ := h hptr
  rw [headToken_entryPtr selected rfl] at hkey
  exact ⟨want, hwant, Option.some.inj hkey ▸ hselect⟩

theorem addresses_selected (hformat : oauth.credsFormat = some .oidcAuthJson)
    (hptr : oauth.accessTokenPtr = none) (h : Addresses tokenUrlAllowed hint oauth doc key) :
    Selected oauth doc key := by
  cases h with
  | load hload hkey =>
    refine selected_of_ptr hkey hptr fun hptr => ?_
    obtain ⟨want, key, hwant, hselect, hsource⟩ := (fits_resolveLayout hformat (openStore_spec hload).1).2 hptr
    exact ⟨want, key, hwant, hselect, congrArg Prod.fst hsource⟩
  | login haccepted hwrite happly hkey =>
    obtain ⟨ptrs, hptrs, rfl⟩ := map_eq_ok hwrite
    exact selected_of_ptr hkey hptr (persist_spec hformat hptrs).2
  | removal hremove hkey => exact entryKey_spec hkey

theorem addresses_ptr {ptr : String} (hformat : oauth.credsFormat = some .oidcAuthJson)
    (hptr : oauth.accessTokenPtr = some ptr) (hundivided : Undivided oauth doc)
    (h : Addresses tokenUrlAllowed hint oauth doc key) : headToken ptr = some key := by
  cases h with
  | load hload hkey =>
    rename_i now opened
    have haccess : opened.layout.accessPtr = ptr :=
      congrArg Prod.fst ((fits_resolveLayout hformat (openStore_spec hload).1).1 ptr hptr)
    rwa [haccess] at hkey
  | login haccepted hwrite happly hkey =>
    obtain ⟨ptrs, hptrs, rfl⟩ := map_eq_ok hwrite
    rwa [(persist_spec hformat hptrs).1 ptr hptr] at hkey
  | removal hremove hkey =>
    obtain ⟨want, hwant, hselect⟩ := entryKey_spec hkey
    exact hundivided ptr hptr want hwant key (mem_of_removeEntry hremove hkey) (standsFor_of_select hselect)

theorem oneAddress_of_undivided (hformat : oauth.credsFormat = some .oidcAuthJson)
    (hundivided : Undivided oauth doc) : OneAddress tokenUrlAllowed hint oauth doc := by
  intro key other hkey hother
  cases hptr : oauth.accessTokenPtr with
  | none => exact (addresses_selected hformat hptr hkey).unique (addresses_selected hformat hptr hother)
  | some ptr =>
    exact Option.some.inj ((addresses_ptr hformat hptr hundivided hkey).symm.trans
      (addresses_ptr hformat hptr hundivided hother))

theorem removal_of_standsFor {want : String} (hkeys : (keysOf doc).Nodup) (hwant : wanted oauth = some want)
    (hmem : key ∈ keysOf doc) (hstands : StandsFor doc want key) :
    Addresses tokenUrlAllowed hint oauth doc key := by
  have hselect := select_of_standsFor hkeys hmem hstands
  cases hissuer : oidcIssuerAndClient oauth with
  | error e => simp [wanted, hissuer, Except.toOption] at hwant
  | ok pair =>
    obtain rfl : oidcProfileKey pair.1 pair.2 = want := by
      simpa [wanted, hissuer, Except.toOption] using hwant
    have hentry : entryKey oauth doc = .ok key := by
      rw [entryKey, hissuer]
      exact hselect
    have hremoved : ∃ left, removeEntry oauth doc = .ok left := by
      cases doc with
      | object fields =>
        have hfound : ((Value.object fields).get? key).isNone = false := by
          obtain ⟨member, hmember, rfl⟩ := List.mem_map.mp hmem
          rw [Value.get?, Option.isNone_eq_false_iff, Option.isSome_iff_ne_none, Ne,
            List.lookup_eq_none_iff]
          intro hnone
          simpa using hnone member hmember
        unfold removeEntry
        simp only [hissuer, hselect, hfound, Value.isObject, Bool.not_true, Bool.false_eq_true, if_false]
        split <;> exact ⟨_, rfl⟩
      | _ => cases hmem
    obtain ⟨left, hleft⟩ := hremoved
    exact .removal hleft hentry

/-- Where a load or a login succeeds with the pack's own pointer, that pointer has to lead into
the entry a removal takes out. -/
theorem undivided_of_oneAddress (hkeys : (keysOf doc).Nodup)
    (hopens : ∀ ptr ∈ oauth.accessTokenPtr, ∃ opened, headToken ptr = some opened ∧
      Addresses tokenUrlAllowed hint oauth doc opened)
    (h : OneAddress tokenUrlAllowed hint oauth doc) : Undivided oauth doc := by
  intro ptr hptr want hwant key hmem hstands
  obtain ⟨opened, hhead, hopened⟩ := hopens ptr hptr
  rw [hhead, h opened key hopened (removal_of_standsFor hkeys hwant hmem hstands)]

end Document

/-- A provider adopts from the entry it writes back to, as long as no other entry with another
access token stands for its key; and on one document a load, a login and a removal address
one entry, unless the pack's own pointer leads elsewhere; and where a load or a login succeeds
with that pointer, only then. -/
theorem store_entry_kept (tokenUrlAllowed : String → Bool) (hint : String) (pack : Pack) (oauth : OauthPack)
    (hformat : oauth.credsFormat = some .oidcAuthJson) :
    (∀ doc now opened needsRefresh S, openStore tokenUrlAllowed hint oauth doc now = .ok opened →
      GuardedRuns.Reached (step pack) Stays (start opened doc needsRefresh) S → OneEntry S) ∧
    (∀ doc, Undivided oauth doc → OneAddress tokenUrlAllowed hint oauth doc) ∧
    ∀ doc, (keysOf doc).Nodup → (∀ ptr ∈ oauth.accessTokenPtr, ∃ opened, headToken ptr = some opened ∧
      Addresses tokenUrlAllowed hint oauth doc opened) →
        OneAddress tokenUrlAllowed hint oauth doc → Undivided oauth doc := by
  refine ⟨fun doc now opened needsRefresh S hload hreached => ?_, fun doc => oneAddress_of_undivided hformat,
    fun doc => undivided_of_oneAddress⟩
  have hinv : Inv S := hreached.keeps (Inv.start hformat hload needsRefresh)
    fun _ _ _ hinv hstays hstep => hinv.step hstays hstep
  exact hinv.once

/-- A pack and the entries of its issuer. -/
def issuerPack : OauthPack where
  tokenUrl := "https://i.c/t"
  clientId := some "c"
  credsFormat := some .oidcAuthJson

def entryOf (access refresh : String) : Value := .object [("key", access), ("refresh_token", refresh)]

def openedWork : Opened where
  oauth := issuerPack
  layout := ⟨"/https:~1~1i.c::c@work/key", some "/https:~1~1i.c::c@work/refresh_token",
    some "/https:~1~1i.c::c@work/expires_at", .s⟩
  access := "a"
  refresh := some "r"
  lifetime := 3600000

def workEntry : Value := .object [("https://i.c::c@work", entryOf "a" "r")]

/-- The document changes, and a refresh adopts what it finds and saves the response. -/
def refreshAfter (doc : Value) (access refresh : String) (h : access ≠ "") : List Action :=
  .change (some doc) :: [.begin, .run 0, .run 0, .run 0, .run 0, .run 0, .run 0, .run 0,
    .lock 0 none, .run 0, .run 0,
    .reload 0 (.ok (some { access := access, refresh := some refresh, needsRefresh := true, nonempty := h })),
    .answer 0 (.accepted { access := "n", refresh := none, expiresIn := none }), .run 0,
    .save 0 none].map fun a => .act a 0

theorem openedWork_loaded : openStore (fun _ => true) "" issuerPack workEntry 0 = .ok openedWork := by rfl

theorem other_access_nonempty : "b" ≠ "" := by decide

/-- Another tool refreshed the loaded entry. -/
def renewed : List Action :=
  refreshAfter (.object [("https://i.c::c@work", entryOf "b" "q")]) "b" "q" other_access_nonempty

theorem store_entry_kept_renewed : ∃ S : State,
    GuardedRuns.run (step {}) (start openedWork workEntry true) renewed = some S ∧
      S.history.length = 2 ∧ OneEntry S ∧ OneAddress (fun _ => true) "" issuerPack workEntry := by
  obtain ⟨hruns, hdocument, -⟩ := store_entry_kept (fun _ => true) "" {} issuerPack rfl
  have hmeet : GuardedRuns.AllMeet (step {}) Stays (start openedWork workEntry true) renewed := by
    decide +kernel
  have hends : (GuardedRuns.run (step {}) (start openedWork workEntry true) renewed).any
      (fun S => S.history.length = 2) := by decide +kernel
  obtain ⟨S, hS, hlength⟩ := (Option.any_eq_true _ _).mp hends
  exact ⟨S, hS, by simpa using hlength, hruns workEntry 0 openedWork true S openedWork_loaded
    (.run .start hS hmeet), hdocument workEntry (by decide)⟩

/-- Another tool added an unnamed entry. -/
def unnamed : List Action :=
  refreshAfter (.object [("https://i.c::c@work", entryOf "a" "r"), ("https://i.c::c", entryOf "b" "q")])
    "b" "q" other_access_nonempty

/-- Its tokens are adopted, and its refresh token is saved in the loaded entry. A removal takes
out another entry than the pack's pointer leads into. -/
theorem other_entry_adopted :
    (∃ S : State, openStore (fun _ => true) "" issuerPack workEntry 0 = .ok openedWork ∧
      GuardedRuns.run (step {}) (start openedWork workEntry true) unnamed = some S ∧
      ((S.doc.bind fun doc => pointerGet doc (entryPtr "https://i.c::c@work" "/refresh_token")).bind
        jsonString) = some "q" ∧
      ¬ OneEntry S) ∧
    ¬ OneAddress (fun _ => true) "" { issuerPack with accessTokenPtr := some "/mine/key" }
      (.object [("https://i.c::c", entryOf "a" "r")]) := by
  have hends : (GuardedRuns.run (step {}) (start openedWork workEntry true) unnamed).any (fun S =>
      ((S.doc.bind fun doc => pointerGet doc (entryPtr "https://i.c::c@work" "/refresh_token")).bind
        jsonString) = some "q" && S.history.any fun e => e.1 ≠ e.2) := by decide +kernel
  obtain ⟨S, hS, hfacts⟩ := (Option.any_eq_true _ _).mp hends
  simp only [Bool.and_eq_true, decide_eq_true_eq, List.any_eq_true] at hfacts
  obtain ⟨hrefresh, e, he, hcrossed⟩ := hfacts
  refine ⟨⟨S, openedWork_loaded, hS, hrefresh, fun h => hcrossed (h e he)⟩, fun h => ?_⟩
  have hsame := h "mine" "https://i.c::c"
    (@Addresses.login _ _ _ _ { accessToken := "n" } _ 0 _ _ rfl rfl rfl rfl) (.removal rfl rfl)
  revert hsame
  decide

end Wiremux.StoreEntries
