import LedgerSim.ApiServer

/-!
# Reading messages

The reader of a socket takes frames until it cannot read another one.  Whatever
stops it is caught, so a stream that breaks off, wherever that is, ends after
the messages that have arrived completely.
-/

namespace LedgerSim

open PyObject

/-! ## The reader -/

/-- What leaves the `try` block of `reader_to_cbor_stream`. -/
inductive ReadFailure where
  /-- `asyncio.IncompleteReadError` -/
  | incompleteRead
  | raised (kind : PyException)

/-- The handler that ended the loop. -/
inductive StreamEnd where
  | eof
  | badlyFormatted
  | unknownError

def ReadFailure.handler : ReadFailure → StreamEnd
  | .incompleteRead => .eof
  | .raised .valueError => .badlyFormatted
  | .raised _ => .unknownError

/-- `reader.readexactly(n)`; the reader is what still arrives. -/
def readexactly (n : ℕ) (reader : Bytes) : Except ReadFailure (Bytes × Bytes) :=
  if n ≤ reader.length then .ok (reader.take n, reader.drop n)
  else .error .incompleteRead

variable (M : Messaging)

/-- A round of the loop up to the `yield`. -/
def readMessage (reader : Bytes) : Except ReadFailure (PyObject × Bytes) := do
  let (messageSizeBlob, reader) ← readexactly 4 reader
  -- `struct.unpack(">L", message_size_blob)`
  let messageSize := BigEndian.toNat messageSizeBlob
  let (blob, reader) ← readexactly messageSize reader
  let message ← (M.loads blob).mapError .raised
  .ok (message, reader)

variable {M} in
theorem readMessage_length_lt {reader rest : Bytes} {message : PyObject}
    (h : readMessage M reader = .ok (message, rest)) :
    rest.length < reader.length := by
  obtain ⟨⟨sizeBlob, afterSize⟩, hsize, h⟩ := Except.bind_eq_ok_iff.mp h
  obtain ⟨⟨blob, afterBlob⟩, hblob, h⟩ := Except.bind_eq_ok_iff.mp h
  obtain ⟨message', hmessage, h⟩ := Except.bind_eq_ok_iff.mp h
  unfold readexactly at hsize hblob
  split_ifs at hsize with hfour
  split_ifs at hblob with hlength
  have hafterSize := congrArg Prod.snd (Except.ok.inj hsize)
  have hafterBlob := congrArg Prod.snd (Except.ok.inj hblob)
  have hrest := congrArg Prod.snd (Except.ok.inj h)
  dsimp only at hafterSize hafterBlob hrest hlength
  rw [← hrest, ← hafterBlob, ← hafterSize, List.length_drop, List.length_drop]
  omega

/-- The messages that the generator yields and how it ends. -/
def readerToCborStream (reader : Bytes) : List PyObject × StreamEnd :=
  match h : readMessage M reader with
  | .error failure => ([], failure.handler)
  | .ok (message, rest) =>
      have := readMessage_length_lt h
      let stream := readerToCborStream rest
      (message :: stream.1, stream.2)
termination_by reader.length

variable {M}

theorem readerToCborStream_of_error {reader : Bytes} {failure : ReadFailure}
    (h : readMessage M reader = .error failure) :
    readerToCborStream M reader = ([], failure.handler) := by
  rw [readerToCborStream]
  split
  next hfailed => rw [Except.error.inj (h.symm.trans hfailed)]
  next hread =>
      rw [h] at hread
      cases hread

theorem readerToCborStream_of_ok {reader rest : Bytes} {message : PyObject}
    (h : readMessage M reader = .ok (message, rest)) :
    readerToCborStream M reader =
      (message :: (readerToCborStream M rest).1,
        (readerToCborStream M rest).2) := by
  rw [readerToCborStream]
  split
  next hfailed =>
      rw [h] at hfailed
      cases hfailed
  next hread =>
      have heq := Prod.mk.inj (Except.ok.inj (h.symm.trans hread))
      rw [heq.1, heq.2]

/-! ## One frame -/

theorem IsFrame.length_eq {frame blob : Bytes} (h : IsFrame frame blob) :
    frame.length = 4 + blob.length := by
  rw [h.2, List.length_append, BigEndian.length_ofNat]

theorem readexactly_append (blob rest : Bytes) :
    readexactly blob.length (blob ++ rest) = .ok (blob, rest) := by
  unfold readexactly
  rw [if_pos (by simp), List.take_left, List.drop_left]

theorem readexactly_short {n : ℕ} {reader : Bytes} (h : reader.length < n) :
    readexactly n reader = .error .incompleteRead := by
  unfold readexactly
  rw [if_neg (by omega)]

theorem readMessage_frame {frame blob : Bytes} (h : IsFrame frame blob)
    {message : PyObject} (hloads : M.loads blob = .ok message) (rest : Bytes) :
    readMessage M (frame ++ rest) = .ok (message, rest) := by
  have hsize := readexactly_append (BigEndian.ofNat 4 blob.length)
    (blob ++ rest)
  rw [BigEndian.length_ofNat] at hsize
  have hlength : BigEndian.toNat (BigEndian.ofNat 4 blob.length) =
      blob.length := BigEndian.toNat_ofNat_of_lt h.1
  unfold readMessage
  rw [h.2, List.append_assoc, hsize, Except.ok_bind]
  dsimp only
  rw [hlength, readexactly_append, Except.ok_bind]
  dsimp only
  rw [hloads]
  rfl

/-- A frame that breaks off, inside its length or inside its blob. -/
theorem readMessage_cut {frame blob : Bytes} (h : IsFrame frame blob) {cut : ℕ}
    (hcut : cut < frame.length) :
    readMessage M (frame.take cut) = .error .incompleteRead := by
  have hframe := h.length_eq
  by_cases hfour : cut < 4
  · have hshort : (frame.take cut).length < 4 := by
      rw [List.length_take]
      omega
    unfold readMessage
    rw [readexactly_short hshort]
    rfl
  · have hlength : (BigEndian.ofNat 4 blob.length).length = 4 :=
      BigEndian.length_ofNat 4 _
    have htake : frame.take cut =
        BigEndian.ofNat 4 blob.length ++ blob.take (cut - 4) := by
      rw [h.2, List.take_append, hlength, List.take_of_length_le (by omega)]
    have hsize := readexactly_append (BigEndian.ofNat 4 blob.length)
      (blob.take (cut - 4))
    rw [hlength] at hsize
    have hshort : (blob.take (cut - 4)).length < blob.length := by
      rw [List.length_take]
      omega
    unfold readMessage
    rw [htake, hsize, Except.ok_bind]
    dsimp only
    rw [BigEndian.toNat_ofNat_of_lt h.1, readexactly_short hshort]
    rfl

/-! ## Cut streams -/

/-- A stream of frames that is cut behind the first `k` of them. -/
structure CutBehind (frames : List Bytes) (cut k : ℕ) : Prop where
  le : k ≤ frames.length
  complete : (frames.take k).flatten.length ≤ cut
  incomplete : k < frames.length → cut < (frames.take (k + 1)).flatten.length

theorem CutBehind.zero {frame : Bytes} {frames : List Bytes} {cut : ℕ}
    (hcut : cut < frame.length) : CutBehind (frame :: frames) cut 0 where
  le := Nat.zero_le _
  complete := Nat.zero_le _
  incomplete := by
    intro _
    rw [List.take_succ_cons, List.take_zero, List.flatten_singleton]
    exact hcut

theorem CutBehind.succ {frame : Bytes} {frames : List Bytes} {cut k : ℕ}
    (hcut : frame.length ≤ cut) (h : CutBehind frames (cut - frame.length) k) :
    CutBehind (frame :: frames) cut (k + 1) where
  le := Nat.succ_le_succ h.le
  complete := by
    have hcomplete := h.complete
    rw [List.take_succ_cons, List.flatten_cons, List.length_append]
    omega
  incomplete := by
    intro hlt
    have hincomplete := h.incomplete (Nat.lt_of_succ_lt_succ hlt)
    rw [List.take_succ_cons, List.flatten_cons, List.length_append]
    omega

/-- The frame of a blob that decodes to the message. -/
def Carries (M : Messaging) (frame : Bytes) (message : PyObject) : Prop :=
  ∃ blob, IsFrame frame blob ∧ M.loads blob = .ok message

/-- The messages of the complete frames are read, in their order. -/
theorem readerToCborStream_cut {frames : List Bytes} {messages : List PyObject}
    (h : List.Forall₂ (Carries M) frames messages) (cut : ℕ) :
    ∃ k, CutBehind frames cut k ∧
      readerToCborStream M (frames.flatten.take cut) =
        (messages.take k, .eof) := by
  induction h generalizing cut with
  | nil =>
      have hempty : readMessage M [] = .error .incompleteRead := rfl
      refine ⟨0, ⟨le_rfl, Nat.zero_le _, nofun⟩, ?_⟩
      rw [List.flatten_nil, List.take_nil, readerToCborStream_of_error hempty]
      rfl
  | @cons frame message frames messages hcarries _ ih =>
      obtain ⟨blob, hframe, hloads⟩ := hcarries
      rw [List.flatten_cons]
      by_cases hcut : cut < frame.length
      · have hread : readMessage M ((frame ++ frames.flatten).take cut) =
            .error .incompleteRead := by
          rw [List.take_append_of_le_length hcut.le]
          exact readMessage_cut hframe hcut
        rw [readerToCborStream_of_error hread]
        exact ⟨0, CutBehind.zero hcut, rfl⟩
      · have hle : frame.length ≤ cut := not_lt.mp hcut
        have htake : (frame ++ frames.flatten).take cut =
            frame ++ frames.flatten.take (cut - frame.length) := by
          rw [List.take_append, List.take_of_length_le hle]
        have hread := readMessage_frame hframe hloads
          (frames.flatten.take (cut - frame.length))
        obtain ⟨k, hk, hstream⟩ := ih (cut - frame.length)
        rw [htake, readerToCborStream_of_ok hread, hstream]
        exact ⟨k + 1, hk.succ hle, rfl⟩

/-! ## Messages -/

namespace PyObject

mutual

/-- `None`, booleans, integers, strings, bytes and objects with `__bytes__`, in
lists and string-keyed dictionaries. -/
def IsMessage : PyObject → Prop
  | .none | .bool _ | .int _ | .str _ | .bytes _ | .coercible (.ok _) => True
  | .list items => AreMessages items
  | .dict items => AreStringKeyed items
  | .coercible (.error _) | .float _ | .other .. => False

def AreMessages : List PyObject → Prop
  | [] => True
  | item :: items => IsMessage item ∧ AreMessages items

def AreStringKeyed : List (PyObject × PyObject) → Prop
  | [] => True
  | (k, v) :: items =>
      (∃ s, k = .str s) ∧ IsMessage v ∧ AreStringKeyed items

end

/-- A string can be a key. -/
theorem exists_setItem (newD : List (PyObject × PyObject)) (s : String)
    (v : PyObject) : ∃ newD', setItem newD (.str s) v = .ok newD' := by
  have hkey : (PyObject.str s).key = some (.str s) := rfl
  unfold setItem
  rw [hkey]
  dsimp only
  by_cases hmem : newD.any fun item => item.1.key = some (.str s)
  · exact ⟨_, if_pos hmem⟩
  · exact ⟨_, if_neg hmem⟩

mutual

theorem exists_transformToStreamable : ∀ {d : PyObject}, d.IsMessage →
    ∃ d', transformToStreamable d = .ok d'
  | .none, _ => ⟨_, rfl⟩
  | .bool _, _ => ⟨_, rfl⟩
  | .int _, _ => ⟨_, rfl⟩
  | .str _, _ => ⟨_, rfl⟩
  | .bytes _, _ => ⟨_, rfl⟩
  | .coercible (.ok _), _ => ⟨_, rfl⟩
  | .coercible (.error _), h => h.elim
  | .float _, h => h.elim
  | .other _ _, h => h.elim
  | .list items, h => by
      obtain ⟨items', hitems⟩ : ∃ items', transformList items = .ok items' :=
        exists_transformList h
      exact ⟨.list items', Except.bind_eq_ok hitems rfl⟩
  | .dict items, h => by
      obtain ⟨items', hitems⟩ : ∃ items', transformItems items [] = .ok items' :=
        exists_transformItems h []
      exact ⟨.dict items', Except.bind_eq_ok hitems rfl⟩

theorem exists_transformList : ∀ {items : List PyObject}, AreMessages items →
    ∃ items', transformList items = .ok items'
  | [], _ => ⟨_, rfl⟩
  | item :: items, h => by
      obtain ⟨first, hfirst⟩ := exists_transformToStreamable h.1
      obtain ⟨rest, hrest⟩ := exists_transformList h.2
      exact ⟨first :: rest,
        Except.bind_eq_ok hfirst (Except.bind_eq_ok hrest rfl)⟩

theorem exists_transformItems : ∀ {items : List (PyObject × PyObject)},
    AreStringKeyed items → ∀ newD : List (PyObject × PyObject),
      ∃ newD', transformItems items newD = .ok newD'
  | [], _, newD => ⟨newD, rfl⟩
  | (k, v) :: items, h, newD => by
      obtain ⟨⟨s, hkey⟩, hvalue, hitems⟩ := h
      subst hkey
      obtain ⟨v', hv⟩ := exists_transformToStreamable hvalue
      obtain ⟨newD', hset⟩ := exists_setItem newD s v'
      obtain ⟨result, hresult⟩ := exists_transformItems hitems newD'
      have hrest := Except.bind_eq_ok hset hresult
      have hk : transformToStreamable (.str s) = .ok (.str s) := rfl
      exact ⟨result, Except.bind_eq_ok hv (Except.bind_eq_ok hk hrest)⟩

end

end PyObject

theorem carries_of_frame (hM : M.Lawful) {msg streamable : PyObject}
    {frame : Bytes} (hstreamable : msg.transformToStreamable = .ok streamable)
    (hframe : xformToCborMessage M msg = .ok frame) :
    Carries M frame streamable := by
  obtain ⟨streamable', blob, hstreamable', hdumps, hblob⟩ :=
    xformToCborMessage_eq_ok_iff.mp hframe
  obtain rfl : streamable' = streamable :=
    Except.ok.inj (hstreamable'.symm.trans hstreamable)
  exact ⟨blob, hblob, hM.loads_dumps msg _ blob hstreamable hdumps⟩

/-- However the stream of the frames breaks off, the messages of the complete
ones are read, and the reader stops there. -/
theorem readerToCborStream_framing (hM : M.Lawful) {messages : List PyObject}
    (hmessages : ∀ msg ∈ messages, msg.IsMessage)
    (hencode : ∀ msg ∈ messages, ∀ streamable,
      msg.transformToStreamable = .ok streamable →
        ∃ blob, M.dumps streamable = .ok blob ∧ blob.length < 2 ^ 32) :
    ∃ streamables frames,
      messages.mapM transformToStreamable = .ok streamables ∧
      messages.mapM (xformToCborMessage M) = .ok frames ∧
      ∀ cut, ∃ k, CutBehind frames cut k ∧
        readerToCborStream M (frames.flatten.take cut) =
          (streamables.take k, .eof) := by
  have hstream : ∀ msg ∈ messages, ∃ streamable,
      msg.transformToStreamable = .ok streamable := by
    intro msg hmsg
    exact exists_transformToStreamable (hmessages msg hmsg)
  have hframe : ∀ msg ∈ messages, ∃ frame,
      xformToCborMessage M msg = .ok frame := by
    intro msg hmsg
    obtain ⟨streamable, hstreamable⟩ := hstream msg hmsg
    obtain ⟨blob, hdumps, hlt⟩ := hencode msg hmsg streamable hstreamable
    exact ⟨_, xformToCborMessage_eq_ok_iff.mpr
      ⟨streamable, blob, hstreamable, hdumps, hlt, rfl⟩⟩
  obtain ⟨streamables, hstreamables⟩ := Except.exists_mapM_eq_ok hstream
  obtain ⟨frames, hframes⟩ := Except.exists_mapM_eq_ok hframe
  have hcarries : List.Forall₂ (Carries M) frames streamables := by
    have hleft := Except.mapM_eq_ok_iff.mp hframes
    have hright := Except.mapM_eq_ok_iff.mp hstreamables
    refine (hleft.flip.comp hright).imp ?_
    rintro frame streamable ⟨msg, hframe, hstreamable⟩
    exact carries_of_frame hM hstreamable hframe
  exact ⟨streamables, frames, hstreamables, hframes,
    readerToCborStream_cut hcarries⟩

open Reference in
/-- Two messages on one stream. -/
theorem readerToCborStream_framing_two :
    ∃ streamables frames,
      [PyObject.dict [(.str "r", .int 7), (.str "n", .int 5)],
        .dict [(.str "r", .int 3), (.str "n", .int 6)]].mapM
          transformToStreamable = .ok streamables ∧
      [PyObject.dict [(.str "r", .int 7), (.str "n", .int 5)],
        .dict [(.str "r", .int 3), (.str "n", .int 6)]].mapM
          (xformToCborMessage messaging) = .ok frames ∧
      ∀ cut, ∃ k, CutBehind frames cut k ∧
        readerToCborStream messaging (frames.flatten.take cut) =
          (streamables.take k, .eof) := by
  apply readerToCborStream_framing messaging_lawful
  · intro msg hmsg
    simp only [List.mem_cons, List.not_mem_nil, or_false] at hmsg
    rcases hmsg with rfl | rfl
    all_goals
      exact ⟨⟨"r", rfl⟩, trivial, ⟨"n", rfl⟩, trivial, trivial⟩
  · intro msg hmsg streamable hstreamable
    simp only [List.mem_cons, List.not_mem_nil, or_false] at hmsg
    rcases hmsg with rfl | rfl
    all_goals
      obtain rfl := Except.ok.inj (hstreamable.symm.trans rfl)
      exact ⟨_, rfl, by decide⟩

end LedgerSim
