import Mathlib.Data.List.Destutter
import Mathlib.Data.String.Basic
import Wiremux.UpstreamUrls

set_option autoImplicit false

/-!
# Signing a request

`sign_aws_request` builds a canonical request of the headers it is given, and signs
its hash.
-/
namespace Wiremux.SigV4Signing
open SseWriting PercentEncoding
open JsonValue (isWhitespace asciiLowerChar)

abbrev Text := List Char

structure AwsCredentials where
  accessKeyId : Text
  secretAccessKey : Text
  sessionToken : Text

structure AwsSignParams where
  method : Text
  host : Text
  path : Text
  query : Text
  region : Text
  service : Text
  extraHeaders : List (Text × Text)
  payload : List UInt8
  amzDate : Text

/-- The hash functions of `sha2` and `hmac`. -/
structure Crypto where
  sha256 : List UInt8 → List UInt8
  hmac : List UInt8 → List UInt8 → List UInt8

def lower (text : Text) : Text := text.map asciiLowerChar

def asciiUpperChar (c : Char) : Char :=
  if 'a'.toNat ≤ c.toNat ∧ c.toNat ≤ 'z'.toNat then Char.ofNat (c.toNat - 32) else c

/-- The text up to a byte, when a character starts there. -/
def bytePrefix : ℕ → Text → Option Text
  | 0, _ => some []
  | _, [] => none
  | bytes, c :: rest =>
    if c.utf8Size ≤ bytes then (bytePrefix (bytes - c.utf8Size) rest).map (c :: ·) else none

def hexDigits : List Char := "0123456789abcdef".toList

def hexEncode (bytes : List UInt8) : Text :=
  bytes.flatMap fun (byte : UInt8) =>
    [hexDigits.getD (byte >>> 4).toNat '0', hexDigits.getD (byte &&& 0x0F).toNat '0']

def unreserved (byte : UInt8) : Bool :=
  (0x41 ≤ byte && byte ≤ 0x5A) || (0x61 ≤ byte && byte ≤ 0x7A) || (0x30 ≤ byte && byte ≤ 0x39) ||
    byte == 0x2D || byte == 0x2E || byte == 0x5F || byte == 0x7E

def canonicalUri (path : Text) : Text :=
  if path.isEmpty then ['/']
  else ['/'].intercalate ((path.splitOn '/').map fun segment =>
    if segment.isEmpty then [] else percentEncode unreserved segment)

def collapse : Bool → Text → Text
  | _, [] => []
  | previous, c :: rest =>
    if isWhitespace c then if previous then collapse true rest else ' ' :: collapse true rest
    else c :: collapse false rest

def trimHeaderValue (value : Text) : Text := collapse false (UpstreamUrls.trim value)

def givenHeaders (creds : AwsCredentials) (params : AwsSignParams) : List (Text × Text) :=
  [("host".toList, params.host), ("x-amz-date".toList, params.amzDate)] ++
    ((if creds.sessionToken.isEmpty ||
        params.extraHeaders.any fun header => lower header.1 == "x-amz-security-token".toList then []
      else [("x-amz-security-token".toList, creds.sessionToken)]) ++
    params.extraHeaders.map fun header => (lower header.1, header.2))

def nameLe (a b : Text × Text) : Bool := decide (a.1 ≤ b.1)

def sortedHeaders (headers : List (Text × Text)) : List (Text × Text) :=
  (headers.mergeSort nameLe).destutter fun a b => a.1 ≠ b.1

structure CanonicalRequest where
  method : Text
  uri : Text
  query : Text
  headers : List (Text × Text)
  payloadHash : Text

namespace CanonicalRequest

variable (request : CanonicalRequest)

def signedHeaders : Text := [';'].intercalate (request.headers.map Prod.fst)

def text : Text :=
  request.method ++ '\n' :: (request.uri ++ '\n' :: (request.query ++ '\n' ::
    (request.headers.flatMap (fun header => header.1 ++ ':' :: (header.2 ++ ['\n'])) ++ '\n' ::
      (request.signedHeaders ++ '\n' :: request.payloadHash))))

end CanonicalRequest

def canonicalRequest (crypto : Crypto) (creds : AwsCredentials) (params : AwsSignParams) :
    CanonicalRequest where
  method := params.method.map asciiUpperChar
  uri := canonicalUri params.path
  query := params.query
  headers := (sortedHeaders (givenHeaders creds params)).map fun header =>
    (header.1, trimHeaderValue header.2)
  payloadHash := hexEncode (crypto.sha256 params.payload)

def signingKey (crypto : Crypto) (secret date region service : Text) : List UInt8 :=
  let kDate := crypto.hmac (utf8 ("AWS4".toList ++ secret)) (utf8 date)
  let kRegion := crypto.hmac kDate (utf8 region)
  let kService := crypto.hmac kRegion (utf8 service)
  crypto.hmac kService (utf8 "aws4_request".toList)

def sigV4Algo : Text := "AWS4-HMAC-SHA256".toList

def credentialScope (params : AwsSignParams) (dateStamp : Text) : Text :=
  dateStamp ++ '/' :: (params.region ++ '/' :: (params.service ++ "/aws4_request".toList))

def authorizationOf (crypto : Crypto) (creds : AwsCredentials) (params : AwsSignParams)
    (dateStamp : Text) : Text :=
  let canonical := canonicalRequest crypto creds params
  let scope := credentialScope params dateStamp
  let stringToSign := sigV4Algo ++ '\n' :: (params.amzDate ++ '\n' :: (scope ++ '\n' ::
    hexEncode (crypto.sha256 (utf8 canonical.text))))
  let key := signingKey crypto creds.secretAccessKey dateStamp params.region params.service
  sigV4Algo ++ (" Credential=".toList ++ (creds.accessKeyId ++ '/' :: (scope ++
    (", SignedHeaders=".toList ++ (canonical.signedHeaders ++ (", Signature=".toList ++
      hexEncode (crypto.hmac key (utf8 stringToSign))))))))

/-- What `sign_aws_request` comes to, with the canonical request it has hashed. -/
inductive SignOutcome
  | panic
  | tooShort
  | signed (canonical : CanonicalRequest) (authorization : Text)

def signAwsRequest (crypto : Crypto) (creds : AwsCredentials) (params : AwsSignParams) : SignOutcome :=
  if (utf8 params.amzDate).length < 8 then .tooShort
  else
    match bytePrefix 8 params.amzDate with
    | none => .panic
    | some dateStamp =>
      .signed (canonicalRequest crypto creds params) (authorizationOf crypto creds params dateStamp)

def encodedPath (path : Text) : Text :=
  path.flatMap fun c => if c = '/' then ['/'] else percentEncode unreserved [c]

theorem percentEncode_append (front back : Text) : percentEncode unreserved (front ++ back) =
    percentEncode unreserved front ++ percentEncode unreserved back := by
  rw [percentEncode, utf8_append, List.flatMap_append]
  rfl

def writtenSegment (segment : Text) : Text :=
  if segment.isEmpty then [] else percentEncode unreserved segment

theorem writtenSegment_eq (segment : Text) : writtenSegment segment = percentEncode unreserved segment := by
  unfold writtenSegment
  cases segment with
  | nil => rfl
  | cons c rest => rfl

theorem intercalate_segments (path : Text) :
    ['/'].intercalate ((path.splitOn '/').map writtenSegment) = encodedPath path := by
  induction path with
  | nil => rfl
  | cons c rest ih =>
    rw [encodedPath, List.flatMap_cons]
    change _ = _ ++ encodedPath rest
    rw [← ih]
    by_cases hc : c = '/'
    · subst hc
      rw [if_pos rfl, List.splitOn_cons_eq_if_modifyHead, if_pos (beq_self_eq_true _)]
      cases hsplit : rest.splitOn '/' with
      | nil => exact absurd hsplit (List.splitOn_ne_nil _ _)
      | cons segment segments => rfl
    · rw [if_neg hc]
      cases hsplit : rest.splitOn '/' with
      | nil => exact absurd hsplit (List.splitOn_ne_nil _ _)
      | cons segment segments =>
        rw [List.splitOn_cons_eq_if_modifyHead, if_neg (by simpa using hc), hsplit, List.modifyHead_cons]
        have hfirst : writtenSegment (c :: segment) =
            percentEncode unreserved [c] ++ writtenSegment segment := by
          rw [writtenSegment_eq, writtenSegment_eq, ← percentEncode_append]
          rfl
        cases segments with
        | nil =>
          rw [List.map_singleton, List.map_singleton, List.intercalate_singleton,
            List.intercalate_singleton]
          exact hfirst
        | cons other others =>
          change writtenSegment (c :: segment) ++ _ = _ ++ (writtenSegment segment ++ _)
          rw [hfirst, List.append_assoc]

theorem canonicalUri_eq {path : Text} (h : path ≠ []) : canonicalUri path = encodedPath path := by
  have hempty : path.isEmpty = false := by
    cases path with
    | nil => exact absurd rfl h
    | cons c rest => rfl
  rw [canonicalUri, hempty, if_neg Bool.false_ne_true]
  exact intercalate_segments path

theorem collapse_plain {value : Text} (h : ∀ c ∈ value, isWhitespace c = false) (previous : Bool) :
    collapse previous value = value := by
  induction value generalizing previous with
  | nil => rfl
  | cons c rest ih =>
    rw [collapse, h c List.mem_cons_self, if_neg Bool.false_ne_true,
      ih (fun other hother => h other (List.mem_cons_of_mem _ hother))]

theorem trimHeaderValue_plain {value : Text} (h : ∀ c ∈ value, isWhitespace c = false) :
    trimHeaderValue value = value := by
  rw [trimHeaderValue, UpstreamUrls.trim_eq_self, collapse_plain h]
  · exact fun c hc => h c (List.mem_of_mem_head? hc)
  · exact fun c hc => h c (List.mem_of_getLast? hc)

theorem prefix_of_bytePrefix {bytes : ℕ} {text front : Text} (h : bytePrefix bytes text = some front) :
    front <+: text := by
  induction text generalizing bytes front with
  | nil =>
    cases bytes with
    | zero =>
      cases h
      exact List.nil_prefix
    | succ bytes => cases h
  | cons c rest ih =>
    cases bytes with
    | zero =>
      cases h
      exact List.nil_prefix
    | succ bytes =>
      simp only [bytePrefix] at h
      split at h
      · obtain ⟨more, hmore, rfl⟩ := Option.map_eq_some_iff.mp h
        exact List.prefix_cons_inj c |>.mpr (ih hmore)
      · cases h

theorem mem_sortedHeaders {headers : List (Text × Text)} {header : Text × Text}
    (h : header ∈ sortedHeaders headers) : header ∈ headers :=
  List.mem_mergeSort.mp ((List.destutter_sublist _ _).subset h)

theorem pairwise_le (headers : List (Text × Text)) :
    (headers.mergeSort nameLe).Pairwise fun a b => a.1 ≤ b.1 := by
  have hsorted := @List.pairwise_mergeSort _ nameLe
    (fun a b c hab hbc => decide_eq_true (le_trans (of_decide_eq_true hab) (of_decide_eq_true hbc)))
    (fun a b => by
      rw [Bool.or_eq_true]
      exact (le_total a.1 b.1).imp decide_eq_true decide_eq_true) headers
  exact hsorted.imp of_decide_eq_true

theorem pairwise_lt {headers : List (Text × Text)} (hle : headers.Pairwise fun a b => a.1 ≤ b.1)
    (hne : headers.IsChain fun a b => a.1 ≠ b.1) : headers.Pairwise fun a b => a.1 < b.1 := by
  induction headers with
  | nil => exact .nil
  | cons first rest ih =>
    obtain ⟨hfirst, hrest⟩ := List.pairwise_cons.mp hle
    refine List.pairwise_cons.mpr ⟨?_, ih hrest hne.tail⟩
    cases rest with
    | nil => exact fun other hother => absurd hother List.not_mem_nil
    | cons second more =>
      have hlt : first.1 < second.1 :=
        lt_of_le_of_ne (hfirst second List.mem_cons_self) (List.isChain_cons_cons.mp hne).1
      intro other hother
      rcases List.mem_cons.mp hother with rfl | hother
      · exact hlt
      · exact lt_of_lt_of_le hlt ((List.pairwise_cons.mp hrest).1 other hother)

theorem sortedHeaders_lt (headers : List (Text × Text)) :
    (sortedHeaders headers).Pairwise fun a b => a.1 < b.1 := by
  have hle := (pairwise_le headers).sublist
    (List.destutter_sublist (fun a b : Text × Text => a.1 ≠ b.1) _)
  have hne := List.isChain_destutter (fun a b : Text × Text => a.1 ≠ b.1)
    (headers.mergeSort nameLe)
  exact pairwise_lt hle hne

theorem mem_sortedHeaders_of_nodup {headers : List (Text × Text)}
    (h : headers.Pairwise fun a b => a.1 ≠ b.1) {header : Text × Text} (hmem : header ∈ headers) :
    header ∈ sortedHeaders headers := by
  have hperm := List.mergeSort_perm headers nameLe
  have hne : (headers.mergeSort nameLe).Pairwise fun a b => a.1 ≠ b.1 :=
    hperm.symm.pairwise h fun hab heq => hab heq.symm
  rw [sortedHeaders, List.destutter_of_isChain _ _ hne.isChain]
  exact List.mem_mergeSort.mpr hmem

end Wiremux.SigV4Signing
