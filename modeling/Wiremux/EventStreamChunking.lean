import Wiremux.ChunkedReading
import Wiremux.EventStream

set_option autoImplicit false

/-!
# The Event Stream reader and its chunks

`messages` is what the bytes say: the frames before the first corrupt message or
exception, and that fault. The reader gives the same for every cut, but loses
the frames of the chunk in which a message is corrupt.
-/
namespace Wiremux.EventStreamChunking
open JsonValue EventStream ChunkedReading
open SseReader (SseFrame)

inductive Fault where
  | corrupt (err : String)
  | exception (err : String)

def Fault.text : Fault → String
  | .corrupt err => err
  | .exception err => err

def Fault.isCorrupt : Fault → Bool
  | .corrupt _ => true
  | .exception _ => false

variable (sj : SerdeJson)

def messages (buf : List UInt8) : Reading SseFrame Fault EventStreamReader :=
  match _htake : takeMessage sj buf with
  | .ok none => ([], .ok ⟨buf⟩)
  | .ok (some (.frame msg consumed)) =>
    andThen ([msg.intoRawSse sj], .ok ()) fun _ => messages (buf.drop consumed)
  | .ok (some (.exception err _)) => ([], .error (.exception err))
  | .error err => ([], .error (.corrupt err))
termination_by buf.length
decreasing_by
  obtain ⟨hpos, hle⟩ := takeMessage_consumed _htake
  rw [List.length_drop]
  omega

/-- How a reading ends for the caller: its fault, or the bytes left over. -/
def ending : Except Fault EventStreamReader → Option String
  | .error fault => some fault.text
  | .ok r =>
    match finish r with
    | .error err => some err
    | .ok _ => none

/-- The frames and the first error of the whole input. -/
def delivered (bytes : List UInt8) : List SseFrame × Option String :=
  ((messages sj bytes).1, ending (messages sj bytes).2)

/-- The first fault is a corrupt message, with a frame before it. -/
def corruptAfterFrame (bytes : List UInt8) : Prop :=
  losesFrames Fault.isCorrupt (messages sj bytes)

/-- Feed the chunks until the first error, then finish. -/
def readAll : EventStreamReader → List (List UInt8) → List SseFrame × Option String
  | r, [] => ([], ending (.ok r))
  | r, c :: cs =>
    match feed sj r c with
    | (.error err, _) => ([], some err)
    | (.ok (frames, some err), _) => (frames, some err)
    | (.ok (frames, none), r) => (frames ++ (readAll r cs).1, (readAll r cs).2)

variable {sj} {buf more : List UInt8}

theorem slice_append {i j : ℕ} (h : j ≤ buf.length) : slice (buf ++ more) i j = slice buf i j := by
  rw [slice, slice, List.take_append_of_le_length h]

theorem takeMessage_append (h : takeMessage sj buf ≠ .ok none) :
    takeMessage sj (buf ++ more) = takeMessage sj buf := by
  have hlen : (buf ++ more).length = buf.length + more.length := List.length_append
  by_cases hprelude : buf.length < preludeLen
  · exact absurd (by rw [takeMessage, if_pos hprelude]) h
  · have htwelve : 12 ≤ buf.length := not_lt.mp hprelude
    have hmore : ¬ (buf ++ more).length < preludeLen := by
      rw [hlen]
      exact fun hlt => hprelude (lt_of_le_of_lt (Nat.le_add_right _ _) hlt)
    unfold takeMessage at h ⊢
    rw [if_neg hprelude] at h
    rw [if_neg hprelude, if_neg hmore]
    simp only [slice_append (show 4 ≤ buf.length by omega),
      slice_append (show 8 ≤ buf.length by omega), slice_append htwelve] at h ⊢
    split
    · rfl
    · rename_i hcrc
      rw [if_neg hcrc] at h
      split
      · rfl
      · rename_i htotal
        rw [if_neg htotal] at h
        by_cases hall : buf.length < fromBeBytes (slice buf 0 4)
        · exact absurd (if_pos hall) h
        · have hle : fromBeBytes (slice buf 0 4) ≤ buf.length := not_lt.mp hall
          have hbody : fromBeBytes (slice buf 0 4) - crcLen ≤ buf.length :=
            (Nat.sub_le _ _).trans hle
          rw [if_neg hall, if_neg (by rw [hlen]; omega), slice_append hle, slice_append hbody,
            slice_append hbody]
          split
          · rfl
          · split
            · rfl
            · rename_i hheaders
              rw [slice_append ((not_lt.mp hheaders).trans hbody)]

theorem messages_of_none (h : takeMessage sj buf = .ok none) :
    messages sj buf = ([], .ok ⟨buf⟩) := by
  rw [messages]
  split <;> simp_all

theorem messages_of_frame {msg : EventStreamMessage} {consumed : ℕ}
    (h : takeMessage sj buf = .ok (some (.frame msg consumed))) :
    messages sj buf =
      andThen ([msg.intoRawSse sj], .ok ()) fun _ => messages sj (buf.drop consumed) := by
  rw [messages]
  split <;> simp_all

theorem messages_of_exception {err : String} {consumed : ℕ}
    (h : takeMessage sj buf = .ok (some (.exception err consumed))) :
    messages sj buf = ([], .error (.exception err)) := by
  rw [messages]
  split <;> simp_all

theorem messages_of_error {err : String} (h : takeMessage sj buf = .error err) :
    messages sj buf = ([], .error (.corrupt err)) := by
  rw [messages]
  split <;> simp_all

theorem messages_append (buf more : List UInt8) : messages sj (buf ++ more) =
    andThen (messages sj buf) fun r => messages sj (r.buffer ++ more) := by
  rcases htake : takeMessage sj buf with err | _ | ⟨msg, consumed⟩ | ⟨err, consumed⟩
  · have hmore := (@takeMessage_append _ _ more (by simp [htake])).trans htake
    rw [messages_of_error htake, messages_of_error hmore, andThen_error]
  · simp [messages_of_none htake]
  · have hmore := (@takeMessage_append _ _ more (by simp [htake])).trans htake
    obtain ⟨hpos, hle⟩ := takeMessage_consumed htake
    rw [messages_of_frame htake, messages_of_frame hmore, andThen_assoc,
      List.drop_append_of_le_length hle, messages_append (buf.drop consumed)]
  · have hmore := (@takeMessage_append _ _ more (by simp [htake])).trans htake
    rw [messages_of_exception htake, messages_of_exception hmore, andThen_error]
termination_by buf.length
decreasing_by
  rw [List.length_drop]
  omega

/-- What is left over is a part of one message, no longer than the input. -/
theorem messages_rest (buf : List UInt8) {fs : List SseFrame} {r : EventStreamReader}
    (h : messages sj buf = (fs, .ok r)) :
    takeMessage sj r.buffer = .ok none ∧ r.buffer.length ≤ buf.length := by
  rcases htake : takeMessage sj buf with err | _ | ⟨msg, consumed⟩ | ⟨err, consumed⟩
  · rw [messages_of_error htake] at h
    cases (Prod.mk.inj h).2
  · rw [messages_of_none htake] at h
    obtain rfl := Except.ok.inj (Prod.mk.inj h).2
    exact ⟨htake, le_rfl⟩
  · obtain ⟨hpos, hle⟩ := takeMessage_consumed htake
    rw [messages_of_frame htake, andThen_ok] at h
    obtain ⟨hnone, hshort⟩ := messages_rest (buf.drop consumed) (Prod.ext rfl (Prod.mk.inj h).2)
    refine ⟨hnone, hshort.trans ?_⟩
    rw [List.length_drop]
    exact Nat.sub_le _ _
  · rw [messages_of_exception htake] at h
    cases (Prod.mk.inj h).2
termination_by buf.length
decreasing_by
  rw [List.length_drop]
  omega

variable (sj) in
/-- What a feed reads, from a state with a part of one message. -/
def read (r : EventStreamReader) (bytes : List UInt8) : Reading SseFrame Fault EventStreamReader :=
  messages sj (r.buffer ++ bytes)

theorem read_incremental : Incremental (read sj) fun r => takeMessage sj r.buffer = .ok none where
  nil := fun r hr => by rw [read, List.append_nil, messages_of_none hr]
  append := fun r xs ys _ => by
    rw [read, ← List.append_assoc, messages_append]
    rfl
  valid := fun _ _ _ _ _ h => (messages_rest _ h).1

def asReading : Except String (List SseFrame × Option String) × EventStreamReader →
    Reading SseFrame Fault EventStreamReader
  | (.error err, _) => ([], .error (.corrupt err))
  | (.ok (frames, some err), _) => (frames, .error (.exception err))
  | (.ok (frames, none), r) => (frames, .ok r)

theorem feedMessages_eq (out : List SseFrame) (buf : List UInt8) :
    asReading (feedMessages sj out buf) =
      dropLost Fault.isCorrupt (out ++ (messages sj buf).1, (messages sj buf).2) := by
  rcases htake : takeMessage sj buf with err | _ | ⟨msg, consumed⟩ | ⟨err, consumed⟩
  · have hfeed : feedMessages sj out buf = (.error err, ⟨buf⟩) := by
      rw [feedMessages]
      split <;> simp_all
    rw [messages_of_error htake, hfeed]
    rfl
  · have hfeed : feedMessages sj out buf = (.ok (out, none), ⟨buf⟩) := by
      rw [feedMessages]
      split <;> simp_all
    rw [messages_of_none htake, hfeed, List.append_nil]
    rfl
  · have hfeed : feedMessages sj out buf =
        feedMessages sj (out ++ [msg.intoRawSse sj]) (buf.drop consumed) := by
      rw [feedMessages]
      split <;> simp_all
    obtain ⟨hpos, hle⟩ := takeMessage_consumed htake
    rw [messages_of_frame htake, hfeed, feedMessages_eq, andThen_ok, List.append_assoc]
  · have hfeed : feedMessages sj out buf = (.ok (out, some err), {}) := by
      rw [feedMessages]
      split <;> simp_all
    rw [messages_of_exception htake, hfeed, List.append_nil]
    rfl
termination_by buf.length
decreasing_by
  rw [List.length_drop]
  omega

theorem feed_eq {r : EventStreamReader} {bytes : List UInt8}
    (hcap : r.buffer.length + bytes.length ≤ maxEventstreamPending) :
    asReading (feed sj r bytes) = dropping Fault.isCorrupt (read sj) r bytes := by
  rw [feed, if_neg (not_lt.mpr hcap), feedMessages_eq, List.nil_append]
  rfl

theorem readAll_eq (chunks : List (List UInt8)) (r : EventStreamReader)
    (hcap : r.buffer.length + chunks.flatten.length ≤ maxEventstreamPending) :
    readAll sj r chunks =
      ((feedAll (dropping Fault.isCorrupt (read sj)) r chunks).1,
        ending (feedAll (dropping Fault.isCorrupt (read sj)) r chunks).2) := by
  induction chunks generalizing r with
  | nil => rfl
  | cons c cs ih =>
    rw [List.flatten_cons, List.length_append] at hcap
    have hfeed := @feed_eq sj r c (by omega)
    rw [readAll, feedAll, ← hfeed]
    rcases hres : feed sj r c with ⟨err | ⟨frames, _ | err⟩, t⟩
    · rfl
    · have hread : read sj r c = (frames, .ok t) := by
        refine dropping_ok (hfeed.symm.trans ?_)
        rw [hres]
        rfl
      have hshort := (messages_rest _ hread).2
      rw [List.length_append] at hshort
      simp only [asReading, andThen_ok, ih t (by omega)]
    · rfl

/-- The reader delivers what the bytes say, however they are cut, exactly where
no corrupt message follows a frame. -/
theorem eventstream_chunking_independent (sj : SerdeJson) (bytes : List UInt8)
    (hcap : bytes.length ≤ maxEventstreamPending) :
    (∀ chunks : List (List UInt8), chunks.flatten = bytes →
        readAll sj {} chunks = delivered sj bytes) ↔ ¬ corruptAfterFrame sj bytes := by
  constructor
  · intro hall hcorrupt
    have hwhole := congrArg Prod.fst (hall [bytes] (by simp))
    rw [readAll_eq [bytes] {} (by simpa using hcap), feedAll_singleton] at hwhole
    exact hcorrupt.1 (hwhole.symm.trans (dropLost_lost hcorrupt))
  · intro hkept chunks hchunks
    subst hchunks
    have hnone : takeMessage sj ({} : EventStreamReader).buffer = .ok none := rfl
    rw [readAll_eq chunks {} (by simpa using hcap),
      feedAll_dropLost read_incremental hnone chunks hkept]
    rfl

def emptyMessage : List UInt8 :=
  [0x00, 0x00, 0x00, 0x10, 0x00, 0x00, 0x00, 0x00, 0x05, 0xC2, 0x48, 0xEB, 0x7D, 0x98, 0xC8, 0xFF]

def corruptPrelude : List UInt8 := List.replicate 12 0

theorem takeMessage_emptyMessage (more : List UInt8) (sj : SerdeJson) :
    takeMessage sj (emptyMessage ++ more) = .ok (some (.frame ⟨none, []⟩ 16)) := by
  have halone : takeMessage sj emptyMessage = .ok (some (.frame ⟨none, []⟩ 16)) := by
    have htotal : fromBeBytes (slice emptyMessage 0 4) = 16 := by decide
    have hprelude : (crc32Ieee (slice emptyMessage 0 8)).toNat =
        fromBeBytes (slice emptyMessage 8 12) := by decide +kernel
    have hmessage : (crc32Ieee (slice emptyMessage 0 12)).toNat =
        fromBeBytes (slice emptyMessage 12 16) := by decide +kernel
    have hheaders : parseHeaders {} [] = .ok {} := by rw [parseHeaders]
    have hnoHeaders : fromBeBytes (slice emptyMessage 4 8) = 0 := by decide
    have hbody : slice emptyMessage 12 12 = [] := by decide
    rw [takeMessage, if_neg (by decide)]
    simp only [htotal, hprelude, hnoHeaders, preludeLen, crcLen]
    rw [if_neg (not_not.mpr rfl), if_neg (by decide), if_neg (by decide),
      if_neg (not_not.mpr hmessage), if_neg (by decide), hbody, hheaders]
    rfl
  rw [takeMessage_append (by simp [halone]), halone]

theorem takeMessage_corruptPrelude (sj : SerdeJson) :
    takeMessage sj corruptPrelude = .error "eventstream prelude CRC mismatch" := by
  rw [takeMessage, if_neg (by decide)]
  exact if_pos (by decide +kernel)

theorem messages_emptyMessage (sj : SerdeJson) :
    messages sj emptyMessage = ([⟨none, ""⟩], .ok {}) := by
  have htake := takeMessage_emptyMessage [] sj
  rw [List.append_nil] at htake
  rw [messages_of_frame htake, messages_of_none rfl]
  rfl

theorem messages_corruptPrelude (sj : SerdeJson) : messages sj (emptyMessage ++ corruptPrelude) =
    ([⟨none, ""⟩], .error (.corrupt "eventstream prelude CRC mismatch")) := by
  have hcorrupt := messages_of_error (takeMessage_corruptPrelude sj)
  rw [messages_append, messages_emptyMessage, andThen_ok, List.nil_append, hcorrupt]
  rfl

theorem eventstream_chunking_independent_one :
    readAll flatJson {} [emptyMessage.take 7, emptyMessage.drop 7] = ([⟨none, ""⟩], none) := by
  have hdelivered : delivered flatJson emptyMessage = ([⟨none, ""⟩], none) := by
    rw [delivered, messages_emptyMessage]
    rfl
  rw [← hdelivered]
  refine (eventstream_chunking_independent flatJson emptyMessage (by decide)).mpr ?_ _ rfl
  rintro ⟨_, e, he, _⟩
  rw [messages_emptyMessage] at he
  cases he

/-- In one chunk the frame before the corrupt prelude is lost; after a cut it is not. -/
theorem eventstream_corruption_loses_frame : ¬ ∀ (sj : SerdeJson) (bytes : List UInt8)
    (chunks : List (List UInt8)), bytes.length ≤ maxEventstreamPending →
    chunks.flatten = bytes → readAll sj {} chunks = readAll sj {} [bytes] := by
  intro hall
  have hcut := congrArg Prod.fst (hall flatJson (emptyMessage ++ corruptPrelude)
    [emptyMessage, corruptPrelude] (by decide) rfl)
  have hfirst : dropping Fault.isCorrupt (read flatJson) {} emptyMessage =
      ([⟨none, ""⟩], .ok {}) := by
    rw [dropping, read, List.nil_append, messages_emptyMessage]
    rfl
  have hwhole : dropping Fault.isCorrupt (read flatJson) {} (emptyMessage ++ corruptPrelude) =
      ([], .error (.corrupt "eventstream prelude CRC mismatch")) := by
    rw [dropping, read, List.nil_append, messages_corruptPrelude]
    rfl
  rw [readAll_eq _ {} (by decide), readAll_eq _ {} (by decide), feedAll_singleton, feedAll, hfirst,
    hwhole, andThen_ok] at hcut
  cases hcut

end Wiremux.EventStreamChunking
