import Wiremux.EventStreamWriting

set_option autoImplicit false

/-!
# Reading the headers of a message back

A header value comes from at most 65535 bytes or is made of printable characters, so
a text that is longer and was cut by the encoder cannot be read back.
-/
namespace Wiremux.EventStreamHeaders
open JsonValue Utf8Lossy EventStream SseWriting EventStreamWriting

def Plain (text : String) : Prop := ∀ c ∈ text.toList, 32 ≤ c.toNat

def Short (text : String) : Prop := (utf8 text.toList).length ≤ 65535

theorem Plain.append {s t : String} (hs : Plain s) (ht : Plain t) : Plain (s ++ t) := by
  intro c hc
  rw [String.toList_append, List.mem_append] at hc
  rcases hc with hc | hc
  · exact hs c hc
  · exact ht c hc

theorem Plain.bytes {text : String} (h : Plain text) {b : UInt8} (hb : b ∈ utf8 text.toList) :
    32 ≤ b.toNat := by
  by_contra hlt
  obtain ⟨c, hc, hbc⟩ := List.mem_flatMap.mp hb
  have hchar := mem_utf8EncodeChar_ascii hbc (by omega)
  have hle := h c hc
  rw [hchar] at hle
  have hcontrol : ∀ n < 32, (Char.ofNat n).toNat < 32 := by decide
  exact absurd hle (not_le.mpr (hcontrol b.toNat (by omega)))

theorem plain_nat (n : ℕ) : Plain (toString n) := by
  intro c hc
  rw [Nat.toString_eq_repr, Nat.repr, String.toList_ofList] at hc
  have hdigit := Nat.isDigit_of_mem_toDigits (by omega) (by omega) hc
  rw [Char.isDigit, Bool.and_eq_true, decide_eq_true_eq] at hdigit
  have hle : (48 : UInt32).toNat ≤ c.val.toNat := UInt32.le_iff_toNat_le.mp hdigit.1
  exact le_trans (by decide) hle

theorem plain_int (i : ℤ) : Plain (toString i) := by
  cases i with
  | ofNat n => exact plain_nat n
  | negSucc n =>
    have hsign : Plain "-" := by simp [Plain]
    exact hsign.append (plain_nat (n + 1))

theorem plain_hexByte (b : UInt8) : Plain (hexByte b) := by
  have hdigit : ∀ n < 16, 32 ≤ (Nat.digitChar n).toNat := by decide
  intro c hc
  have hhigh : b.toNat / 16 < 16 := by
    have hlt := b.toNat_lt
    omega
  rw [hexByte, String.toList_ofList] at hc
  rcases List.mem_pair.mp hc with rfl | rfl
  · exact hdigit _ hhigh
  · exact hdigit _ (Nat.mod_lt _ (by omega))

theorem plain_join {texts : List String} (h : ∀ t ∈ texts, Plain t) : Plain (String.join texts) := by
  intro c hc
  rw [String.toList_join, List.mem_flatMap] at hc
  obtain ⟨t, ht, hc⟩ := hc
  exact h t ht c hc

theorem plain_intercalate {sep : String} (hsep : Plain sep) {texts : List String}
    (h : ∀ t ∈ texts, Plain t) : Plain (sep.intercalate texts) := by
  induction texts with
  | nil => simp [Plain]
  | cons t rest ih =>
    have ht := h t List.mem_cons_self
    cases rest with
    | nil => rwa [String.intercalate_singleton]
    | cons u rest =>
      rw [String.intercalate_cons_cons]
      exact (ht.append hsep).append (ih fun t' ht' => h t' (List.mem_cons_of_mem _ ht'))

theorem plain_debugText (bytes : List UInt8) : Plain (debugText bytes) := by
  have hopen : Plain "[" := by simp [Plain]
  have hclose : Plain "]" := by simp [Plain]
  have hsep : Plain ", " := by simp [Plain]
  refine (hopen.append (plain_intercalate hsep fun t ht => ?_)).append hclose
  obtain ⟨b, _, rfl⟩ := List.mem_map.mp ht
  exact plain_nat b.toNat

theorem takeBytes_ok {rest bytes after : List UInt8} {n : ℕ}
    (h : takeBytes rest n = .ok (bytes, after)) : bytes.length = n ∧ after <:+ rest := by
  unfold takeBytes at h
  split at h
  · cases h
  · obtain ⟨rfl, rfl⟩ := Prod.mk.inj (Except.ok.inj h)
    refine ⟨?_, List.drop_suffix n rest⟩
    rw [List.length_take]
    omega

theorem fromBeBytes_le (bytes : List UInt8) : fromBeBytes bytes < 256 ^ bytes.length := by
  induction bytes using List.reverseRecOn with
  | nil => simp [fromBeBytes]
  | append_singleton bytes b ih =>
    have hb := b.toNat_lt
    rw [fromBeBytes_append, List.length_append, List.length_singleton, pow_succ]
    omega

theorem takeSized_ok {rest bytes after : List UInt8} (h : takeSized rest = .ok (bytes, after)) :
    bytes.length ≤ 65535 ∧ after <:+ rest := by
  unfold takeSized at h
  split at h
  · cases h
  · rename_i len mid hlen
    obtain ⟨hwidth, hmid⟩ := takeBytes_ok hlen
    obtain ⟨hlength, hafter⟩ := takeBytes_ok h
    have hlt := fromBeBytes_le len
    rw [hwidth] at hlt
    exact ⟨by omega, hafter.trans hmid⟩

/-- What a header value is, and where the next header starts. -/
structure ReadValue (rest : List UInt8) (value : String) (after : List UInt8) : Prop where
  text : Plain value ∨ Short value
  suffix : after <:+ rest

theorem readValue_textOf {text : List UInt8 → String} (hplain : ∀ bytes, Plain (text bytes))
    {rest after : List UInt8} {value : String} {taken : Except String (List UInt8 × List UInt8)}
    (htaken : ∀ bytes left, taken = .ok (bytes, left) → left <:+ rest)
    (h : textOf text taken = .ok (value, after)) : ReadValue rest value after := by
  cases taken with
  | error e => cases h
  | ok r =>
    obtain ⟨rfl, rfl⟩ := Prod.mk.inj (Except.ok.inj h)
    exact ⟨.inl (hplain r.1), htaken r.1 r.2 rfl⟩

theorem readHeaderValue_ok {ty : UInt8} {rest after : List UInt8} {value : String}
    (h : readHeaderValue ty rest = .ok (value, after)) : ReadValue rest value after := by
  have hfixed : ∀ (text : List UInt8 → String), (∀ bytes, Plain (text bytes)) → ∀ n,
      textOf text (takeBytes rest n) = .ok (value, after) → ReadValue rest value after :=
    fun _ hplain _ => readValue_textOf hplain fun _ _ htaken => (takeBytes_ok htaken).2
  have hsigned : ∀ bytes, Plain (signedText bytes) := fun bytes => plain_int _
  unfold readHeaderValue at h
  split at h
  · obtain ⟨rfl, rfl⟩ := Prod.mk.inj (Except.ok.inj h)
    exact ⟨.inl (by simp [Plain]), List.suffix_rfl⟩
  · obtain ⟨rfl, rfl⟩ := Prod.mk.inj (Except.ok.inj h)
    exact ⟨.inl (by simp [Plain]), List.suffix_rfl⟩
  · exact hfixed _ (fun bytes => plain_nat _) _ h
  · exact hfixed _ hsigned _ h
  · exact hfixed _ hsigned _ h
  · exact hfixed _ hsigned _ h
  · exact readValue_textOf plain_debugText (fun _ _ htaken => (takeSized_ok htaken).2) h
  · split at h
    · cases h
    · rename_i bytes left hsized
      obtain ⟨hlength, hleft⟩ := takeSized_ok hsized
      split at h
      · cases h
      · rename_i text htext
        obtain ⟨rfl, rfl⟩ := Prod.mk.inj (Except.ok.inj h)
        refine ⟨.inr ?_, hleft⟩
        rwa [Short, utf8_of_fromUtf8 htext]
  · exact hfixed _ hsigned _ h
  · refine hfixed _ (fun bytes => plain_join fun t ht => ?_) _ h
    obtain ⟨b, _, rfl⟩ := List.mem_map.mp ht
    exact plain_hexByte b
  · cases h

structure ReadHeader (nameLen : UInt8) (rest : List UInt8) (name value : String)
    (after : List UInt8) : Prop where
  name : (utf8 name.toList).length = nameLen.toNat
  text : Plain value ∨ Short value
  suffix : after <:+ rest

theorem readHeader_ok {nameLen : UInt8} {rest after : List UInt8} {name value : String}
    (h : readHeader nameLen rest = .ok (name, value, after)) :
    ReadHeader nameLen rest name value after := by
  unfold readHeader at h
  split at h
  · cases h
  · rename_i hroom
    split at h
    · cases h
    · rename_i text htext
      split at h
      · cases h
      · rename_i ty left hdrop
        cases hvalue : readHeaderValue ty left with
        | error e =>
          rw [hvalue] at h
          cases h
        | ok r =>
          rw [hvalue] at h
          obtain ⟨rfl, hr⟩ := Prod.mk.inj (Except.ok.inj h)
          obtain ⟨rfl, rfl⟩ := Prod.mk.inj hr
          obtain ⟨hshape, hsuffix⟩ := readHeaderValue_ok hvalue
          have hleft : left <:+ rest :=
            (List.suffix_cons ty left).trans (hdrop ▸ List.drop_suffix nameLen.toNat rest)
          refine ⟨?_, hshape, hsuffix.trans hleft⟩
          rw [utf8_of_fromUtf8 htext, List.length_take]
          omega

theorem parseHeaders_invariant (Inv : ParsedHeaders → Prop) {h : ParsedHeaders} {buf : List UInt8}
    (hstep : ∀ h nameLen rest name value after, Inv h → nameLen ∈ buf →
      ReadHeader nameLen rest name value after → Inv (h.set name value))
    {parsed : ParsedHeaders} (hinv : Inv h) (hparse : parseHeaders h buf = .ok parsed) :
    Inv parsed := by
  induction h, buf using parseHeaders.induct with
  | case1 h =>
    rw [parseHeaders] at hparse
    exact Except.ok.inj hparse ▸ hinv
  | case2 h nameLen rest err hheader =>
    rw [parseHeaders] at hparse
    split at hparse <;> simp_all
  | case3 h nameLen rest name value after hheader ih =>
    have hread := readHeader_ok hheader
    have hset := hstep h nameLen rest name value after hinv List.mem_cons_self hread
    have hnext : parseHeaders (h.set name value) after = .ok parsed := by
      rw [parseHeaders] at hparse
      split at hparse <;> simp_all
    refine ih (fun h' nameLen' rest' name' value' after' hinv' hmem => ?_) hset hnext
    exact hstep h' nameLen' rest' name' value' after' hinv'
      (List.mem_cons_of_mem _ (hread.suffix.subset hmem))

/-- A field that the headers named `key` set. -/
structure SetBy (key : String) (field : ParsedHeaders → Option String) : Prop where
  keyed : ∀ (h : ParsedHeaders) value, field (h.set key value) = some value
  other : ∀ (h : ParsedHeaders) name value, name ≠ key → field (h.set name value) = field h

variable {key : String} {field : ParsedHeaders → Option String} {h parsed : ParsedHeaders}

theorem field_shape (hset : SetBy key field) {buf : List UInt8}
    (hparse : parseHeaders h buf = .ok parsed) :
    field parsed = field h ∨ ∃ value, field parsed = some value ∧ (Plain value ∨ Short value) := by
  refine parseHeaders_invariant (fun h' => field h' = field h ∨
    ∃ value, field h' = some value ∧ (Plain value ∨ Short value)) ?_ (.inl rfl) hparse
  intro h' nameLen rest name value after hinv _ hread
  by_cases hname : name = key
  · subst hname
    exact .inr ⟨value, hset.keyed h' value, hread.text⟩
  · rwa [hset.other h' name value hname]

theorem field_absent (hset : SetBy key field) {buf : List UInt8}
    (habsent : ∀ b ∈ buf, b.toNat ≠ (utf8 key.toList).length)
    (hparse : parseHeaders h buf = .ok parsed) : field parsed = field h := by
  refine parseHeaders_invariant (fun h' => field h' = field h) ?_ rfl hparse
  intro h' nameLen rest name value after hinv hmem hread
  have hname : name ≠ key := by
    rintro rfl
    exact habsent nameLen hmem hread.name.symm
  rwa [hset.other h' name value hname]

theorem takeBytes_append (xs rest : List UInt8) : takeBytes (xs ++ rest) xs.length = .ok (xs, rest) := by
  rw [takeBytes, if_neg (by simp), List.take_left, List.drop_left]

theorem readHeader_string {name value : String} {rest : List UInt8}
    (hname : (utf8 name.toList).length ≤ 255) :
    readHeader (UInt8.ofNat (utf8 name.toList).length)
        (utf8 name.toList ++ (7 :: (toBeBytes 2 (utf8 value.toList).length ++
          (utf8 value.toList ++ rest)))) =
      ((fromUtf8 ((utf8 value.toList ++ rest).take ((utf8 value.toList).length % 65536))).elim
        (.error "eventstream string header is not UTF-8")
        (fun text => .ok (name, text,
          (utf8 value.toList ++ rest).drop ((utf8 value.toList).length % 65536)))) := by
  have hlen : (UInt8.ofNat (utf8 name.toList).length).toNat = (utf8 name.toList).length := by
    rw [UInt8.toNat_ofNat']
    exact Nat.mod_eq_of_lt (by omega)
  have hwidth : (toBeBytes 2 (utf8 value.toList).length).length = 2 := toBeBytes_length 2 _
  have hle := Nat.mod_le (utf8 value.toList).length 65536
  have hsized : takeSized (toBeBytes 2 (utf8 value.toList).length ++ (utf8 value.toList ++ rest)) =
      .ok ((utf8 value.toList ++ rest).take ((utf8 value.toList).length % 65536),
        (utf8 value.toList ++ rest).drop ((utf8 value.toList).length % 65536)) := by
    have htake := takeBytes_append (toBeBytes 2 (utf8 value.toList).length) (utf8 value.toList ++ rest)
    rw [hwidth] at htake
    rw [takeSized, htake]
    simp only
    rw [fromBeBytes_toBeBytes, takeBytes, if_neg]
    · rfl
    · have hwide : 256 ^ 2 = 65536 := rfl
      rw [hwide, List.length_append]
      omega
  rw [readHeader, hlen, if_neg (by simp only [List.length_append, List.length_cons]; omega), List.take_left,
    List.drop_left, fromUtf8_utf8]
  simp only [readHeaderValue, hsized]
  cases fromUtf8 ((utf8 value.toList ++ rest).take ((utf8 value.toList).length % 65536)) <;> rfl

end Wiremux.EventStreamHeaders
