import LedgerSim.Hashable
import LedgerSim.Exec

/-!
# Messages

What goes over a socket is a frame: the length of a blob and the blob, which
`cbor` makes of a value.  Before that, objects that have bytes are replaced by
these, everywhere inside a value; what a decoder has produced is either left as
it is or refused.
-/

namespace LedgerSim

/-! ## Values -/

/-- What the message code distinguishes in a Python object. -/
inductive PyObject where
  | none
  | bool (b : Bool)
  | int (n : ℤ)
  /-- A float, and the integer that it equals, if any. -/
  | float (integral : Option ℤ)
  | str (s : String)
  | bytes (b : Bytes)
  /-- A list, or what else can be iterated. -/
  | list (items : List PyObject)
  | dict (items : List (PyObject × PyObject))
  /-- An object with `__bytes__`, and what that returns or raises. -/
  | coercible (blob : Except PyException Bytes)
  /-- An object of another type, and what iterating it raises. -/
  | other (hashable : Bool) (iteration : PyException)

/-- Dictionary keys up to `==`: booleans are the integers 0 and 1. -/
inductive PyKey where
  | none
  | int (n : ℤ)
  | str (s : String)
  | bytes (b : Bytes)
deriving DecidableEq

namespace PyObject

/-- The key that the object is, if it can be equal to an encoded key. -/
def key : PyObject → Option PyKey
  | .none => some .none
  | .bool b => some (.int (if b then 1 else 0))
  | .int n => some (.int n)
  | .float integral => integral.map .int
  | .str s => some (.str s)
  | .bytes b => some (.bytes b)
  | _ => Option.none

def hashable : PyObject → Bool
  | .list _ => false
  | .dict _ => false
  | .other hashable _ => hashable
  | _ => true

theorem hashable_of_key {d : PyObject} {key : PyKey} (h : d.key = some key) :
    d.hashable = true := by
  cases d with
  | list items => cases h
  | dict items => cases h
  | other hashable iteration => cases h
  | _ => rfl

/-- `d.get(key)` for a string. -/
def get (items : List (PyObject × PyObject)) (key : String) : PyObject :=
  ((items.find? fun item => item.1.key = some (.str key)).map Prod.snd).getD
    .none

/-- `key in d` for a string. -/
def contains (items : List (PyObject × PyObject)) (key : String) : Bool :=
  items.any fun item => item.1.key = some (.str key)

/-- `new_d[k] = v` -/
def setItem (newD : List (PyObject × PyObject)) (k v : PyObject) :
    Except PyException (List (PyObject × PyObject)) :=
  match k.key with
  | Option.none => .error .typeError
  | some key =>
      if newD.any fun item => item.1.key = some key then
        .ok (newD.map fun item =>
          if item.1.key = some key then (item.1, v) else item)
      else .ok (newD ++ [(k, v)])

mutual

def transformToStreamable : PyObject → Except PyException PyObject
  | .coercible blob => blob.map .bytes
  | .none => .ok .none
  | .bool b => .ok (.bool b)
  | .int n => .ok (.int n)
  | .str s => .ok (.str s)
  | .bytes b => .ok (.bytes b)
  | .dict items => do
      let newD ← transformItems items []
      .ok (.dict newD)
  | .list items => do
      let items ← transformList items
      .ok (.list items)
  -- `for _ in d`
  | .float _ => .error .typeError
  | .other _ iteration => .error iteration

def transformList : List PyObject → Except PyException (List PyObject)
  | [] => .ok []
  | item :: items => do
      let item ← transformToStreamable item
      let items ← transformList items
      .ok (item :: items)

/-- The value of an item is transformed before its key. -/
def transformItems : List (PyObject × PyObject) →
    List (PyObject × PyObject) →
      Except PyException (List (PyObject × PyObject))
  | [], newD => .ok newD
  | (k, v) :: items, newD => do
      let v ← transformToStreamable v
      let k ← transformToStreamable k
      let newD ← setItem newD k v
      transformItems items newD

end

mutual

/-- The values that a decoder produces: no object has `__bytes__`, and no two
keys of a dictionary are equal. -/
def Decoded : PyObject → Prop
  | .coercible _ => False
  | .list items => DecodedList items
  | .dict items => DecodedItems items ∧
      items.Pairwise fun item item' =>
        item.1.key = Option.none ∨ item.1.key ≠ item'.1.key
  | _ => True

def DecodedList : List PyObject → Prop
  | [] => True
  | item :: items => Decoded item ∧ DecodedList items

def DecodedItems : List (PyObject × PyObject) → Prop
  | [] => True
  | (k, v) :: items => Decoded k ∧ Decoded v ∧ DecodedItems items

end

/-! ## Decoded values are streamed as they are -/

theorem setItem_new {newD : List (PyObject × PyObject)} {k v : PyObject}
    {newD' : List (PyObject × PyObject)}
    (hnew : ∀ item ∈ newD, item.1.key = Option.none ∨ item.1.key ≠ k.key)
    (h : setItem newD k v = .ok newD') : newD' = newD ++ [(k, v)] := by
  unfold setItem at h
  cases hkey : k.key with
  | none =>
      rw [hkey] at h
      cases h
  | some key =>
      rw [hkey] at h
      dsimp only at h
      rw [if_neg] at h
      · exact (Except.ok.inj h).symm
      · rw [List.any_eq_true]
        rintro ⟨item, hitem, hsame⟩
        have hsame : item.1.key = some key := by simpa using hsame
        rcases hnew item hitem with hnone | hne
        · rw [hnone] at hsame
          cases hsame
        · exact hne (hsame.trans hkey.symm)

mutual

theorem transformToStreamable_decoded : ∀ {d d' : PyObject}, d.Decoded →
    transformToStreamable d = .ok d' → d' = d
  | .none, _, _, h => (Except.ok.inj h).symm
  | .bool _, _, _, h => (Except.ok.inj h).symm
  | .int _, _, _, h => (Except.ok.inj h).symm
  | .str _, _, _, h => (Except.ok.inj h).symm
  | .bytes _, _, _, h => (Except.ok.inj h).symm
  | .float _, _, _, h => by cases h
  | .other _ _, _, _, h => by cases h
  | .coercible _, _, hd, _ => hd.elim
  | .list items, d', hd, h => by
      obtain ⟨items', hitems, h⟩ := Except.bind_eq_ok_iff.mp h
      rw [← Except.ok.inj h, transformList_decoded hd hitems]
  | .dict items, d', hd, h => by
      obtain ⟨items', hitems, h⟩ := Except.bind_eq_ok_iff.mp h
      have hall : items' = [] ++ items :=
        transformItems_decoded hd.1 hd.2 hitems
      rw [← Except.ok.inj h, hall, List.nil_append]

theorem transformList_decoded : ∀ {items items' : List PyObject},
    DecodedList items → transformList items = .ok items' → items' = items
  | [], _, _, h => (Except.ok.inj h).symm
  | item :: items, items', hd, h => by
      obtain ⟨first, hfirst, h⟩ := Except.bind_eq_ok_iff.mp h
      obtain ⟨rest, hrest, h⟩ := Except.bind_eq_ok_iff.mp h
      rw [← Except.ok.inj h, transformToStreamable_decoded hd.1 hfirst,
        transformList_decoded hd.2 hrest]

theorem transformItems_decoded :
    ∀ {items newD newD' : List (PyObject × PyObject)}, DecodedItems items →
      (newD ++ items).Pairwise (fun item item' =>
        item.1.key = Option.none ∨ item.1.key ≠ item'.1.key) →
      transformItems items newD = .ok newD' → newD' = newD ++ items
  | [], newD, _, _, _, h => by
      rw [List.append_nil]
      exact (Except.ok.inj h).symm
  | (k, v) :: items, newD, newD', hd, hdistinct, h => by
      obtain ⟨v', hv, h⟩ := Except.bind_eq_ok_iff.mp h
      obtain ⟨k', hk, h⟩ := Except.bind_eq_ok_iff.mp h
      obtain ⟨next, hnext, h⟩ := Except.bind_eq_ok_iff.mp h
      rw [transformToStreamable_decoded hd.2.1 hv,
        transformToStreamable_decoded hd.1 hk] at hnext
      have hnew : next = newD ++ [(k, v)] := by
        apply setItem_new _ hnext
        intro item hitem
        exact (List.pairwise_append.mp hdistinct).2.2 item hitem (k, v)
          List.mem_cons_self
      have happend : next ++ items = newD ++ (k, v) :: items := by
        rw [hnew, List.append_assoc, List.singleton_append]
      rw [← happend] at hdistinct ⊢
      exact transformItems_decoded hd.2.2 hdistinct h

end

/-- A dictionary of two items under different strings. -/
theorem transformToStreamable_two_iff {key key' : String} (hne : key ≠ key')
    {v v' d : PyObject} :
    transformToStreamable (.dict [(.str key, v), (.str key', v')]) = .ok d ↔
      ∃ w w', v.transformToStreamable = .ok w ∧
        v'.transformToStreamable = .ok w' ∧
        .dict [(.str key, w), (.str key', w')] = d := by
  have hset : ∀ w w', setItem [(.str key, w)] (.str key') w' =
      .ok [(.str key, w), (.str key', w')] := by
    intro w w'
    simp [setItem, PyObject.key, hne]
  constructor
  · intro h
    obtain ⟨newD, hnewD, h⟩ := Except.bind_eq_ok_iff.mp h
    obtain ⟨w, hw, hnewD⟩ := Except.bind_eq_ok_iff.mp hnewD
    have hrest : transformItems [(.str key', v')] [(.str key, w)] =
        .ok newD := hnewD
    obtain ⟨w', hw', hrest⟩ := Except.bind_eq_ok_iff.mp hrest
    have hlast : (setItem [(.str key, w)] (.str key') w' >>=
        fun newD => transformItems [] newD) = .ok newD := hrest
    rw [hset, Except.ok_bind] at hlast
    rw [← Except.ok.inj h, ← Except.ok.inj hlast]
    exact ⟨w, w', hw, hw', rfl⟩
  · rintro ⟨w, w', hw, hw', rfl⟩
    have hlast : transformItems [(.str key', v')] [(.str key, w)] =
        .ok [(.str key, w), (.str key', w')] := by
      apply Except.bind_eq_ok hw'
      exact Except.bind_eq_ok rfl (Except.bind_eq_ok (hset w w') rfl)
    apply Except.bind_eq_ok (Except.bind_eq_ok hw hlast)
    rfl

/-- What is found in a decoded dictionary has been decoded. -/
theorem decoded_get {items : List (PyObject × PyObject)}
    (h : DecodedItems items) (key : String) : (get items key).Decoded := by
  induction items with
  | nil => trivial
  | cons item items ih =>
      obtain ⟨k, v⟩ := item
      unfold get
      rw [List.find?_cons]
      split
      next => exact h.2.1
      next => exact ih h.2.2

end PyObject

/-! ## The libraries -/

/-- The parts of Python, of `cbor` and of `aiter` under the messages. -/
structure Messaging where
  /-- `"%s" % value` -/
  format : PyObject → String
  /-- `"%s" % ex` -/
  text : PyException → String
  /-- `cbor.dumps` -/
  dumps : PyObject → Except PyException Bytes
  /-- `cbor.loads` -/
  loads : Bytes → Except PyException PyObject
  /-- What leaves `map_aiter` when its mapper raises an `Exception`; `none` if
  it goes on with the next item. -/
  mapAiterRaises : PyException → Option PyException

/-- What has been transformed and encoded is decoded to the same value. -/
structure Messaging.Lawful (M : Messaging) : Prop where
  loads_dumps : ∀ (d d' : PyObject) blob, d.transformToStreamable = .ok d' →
    M.dumps d' = .ok blob → M.loads blob = .ok d'

/-- `map_aiter` logs what its mapper raises and drops the item. -/
def Messaging.DropsItems (M : Messaging) : Prop :=
  ∀ kind, M.mapAiterRaises kind = none

/-! ## Mapped streams -/

/-- What a mapper ends with instead of a value: an `Exception`, or something
that is none, such as a cancellation. -/
inductive MapperFailure where
  | raised (kind : PyException)
  | interrupted

/-- What `map_aiter` makes of an item, given what came of its mapper: it yields
a value, nothing, or ends. -/
def Messaging.mapAiter (M : Messaging) {α : Type} :
    Except MapperFailure α → Except MapperFailure (Option α)
  | .ok a => .ok (some a)
  | .error (.raised kind) =>
      match M.mapAiterRaises kind with
      | none => .ok none
      | some kind => .error (.raised kind)
  | .error .interrupted => .error .interrupted

namespace Messaging

variable {M : Messaging} {α : Type}

@[simp] theorem mapAiter_ok (a : α) : M.mapAiter (.ok a) = .ok (some a) :=
  rfl

@[simp] theorem mapAiter_interrupted :
    M.mapAiter (.error .interrupted : Except MapperFailure α) =
      .error .interrupted :=
  rfl

theorem DropsItems.mapAiter_raised (h : M.DropsItems) (kind : PyException) :
    M.mapAiter (.error (.raised kind) : Except MapperFailure α) =
      .ok none := by
  simp [mapAiter, h kind]

theorem mapAiter_eq_some_iff {mapped : Except MapperFailure α} {a : α} :
    M.mapAiter mapped = .ok (some a) ↔ mapped = .ok a := by
  unfold mapAiter
  split
  next => simp
  next => split <;> simp
  next => simp

end Messaging

variable (M : Messaging)

/-! ## Frames -/

/-- `struct.pack(">L", size)` -/
def packLength (size : ℕ) : Except PyException Bytes :=
  if size < 2 ^ 32 then .ok (BigEndian.ofNat 4 size) else .error .structError

def xformToCborMessage (msg : PyObject) : Except PyException Bytes := do
  let streamable ← msg.transformToStreamable
  let msgBlob ← M.dumps streamable
  let lengthBlob ← packLength msgBlob.length
  .ok (lengthBlob ++ msgBlob)

/-- The message can be sent. -/
def Messaging.Encodes (msg : PyObject) : Prop :=
  ∃ frame, xformToCborMessage M msg = .ok frame

/-- The blob of a frame. -/
def IsFrame (frame blob : Bytes) : Prop :=
  blob.length < 2 ^ 32 ∧ frame = BigEndian.ofNat 4 blob.length ++ blob

theorem IsFrame.unique {frame blob blob' : Bytes} (h : IsFrame frame blob)
    (h' : IsFrame frame blob') : blob = blob' := by
  have heq := h.2.symm.trans h'.2
  have hlength : (BigEndian.ofNat 4 blob.length).length =
      (BigEndian.ofNat 4 blob'.length).length := by
    rw [BigEndian.length_ofNat, BigEndian.length_ofNat]
  exact (List.append_inj heq hlength).2

variable {M}

theorem xformToCborMessage_eq_ok_iff {msg : PyObject} {frame : Bytes} :
    xformToCborMessage M msg = .ok frame ↔
      ∃ streamable blob, msg.transformToStreamable = .ok streamable ∧
        M.dumps streamable = .ok blob ∧ IsFrame frame blob := by
  constructor
  · intro h
    obtain ⟨streamable, hstreamable, h⟩ := Except.bind_eq_ok_iff.mp h
    obtain ⟨blob, hblob, h⟩ := Except.bind_eq_ok_iff.mp h
    obtain ⟨lengthBlob, hlength, h⟩ := Except.bind_eq_ok_iff.mp h
    unfold packLength at hlength
    split_ifs at hlength with hlt
    refine ⟨streamable, blob, hstreamable, hblob, hlt, ?_⟩
    rw [← Except.ok.inj h, Except.ok.inj hlength]
  · rintro ⟨streamable, blob, hstreamable, hblob, hlt, hframe⟩
    apply Except.bind_eq_ok hstreamable
    apply Except.bind_eq_ok hblob
    unfold packLength
    rw [if_pos hlt, hframe]
    rfl

end LedgerSim
