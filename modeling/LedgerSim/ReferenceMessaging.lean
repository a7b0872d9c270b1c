import LedgerSim.CborMessages
import LedgerSim.Codec

/-!
# A concrete encoding

`cbor` as it encodes the values of messages, except for integers of more than
64 bits: the kind of a value and a number in the first byte, large numbers in
the bytes after it, then the content.
-/

namespace LedgerSim

open Codec

namespace Reference

/-! ## Heads -/

/-- The kind of an item with its value or its length. -/
def cborHead (kind n : ℕ) : Except PyException Bytes :=
  if n < 24 then .ok [UInt8.ofNat (32 * kind + n)]
  else if n < 256 ^ 1 then
    .ok (UInt8.ofNat (32 * kind + 24) :: BigEndian.ofNat 1 n)
  else if n < 256 ^ 2 then
    .ok (UInt8.ofNat (32 * kind + 25) :: BigEndian.ofNat 2 n)
  else if n < 256 ^ 4 then
    .ok (UInt8.ofNat (32 * kind + 26) :: BigEndian.ofNat 4 n)
  else if n < 256 ^ 8 then
    .ok (UInt8.ofNat (32 * kind + 27) :: BigEndian.ofNat 8 n)
  else .error .overflowError

abbrev CborReader := Reader PyException UInt8

def readSized (size : ℕ) : CborReader ℕ := fun f =>
  if (f.take size).length = size then
    .ok (BigEndian.toNat (f.take size), f.drop size)
  else .error .indexError

def readHead : CborReader (ℕ × ℕ)
  | [] => .error .indexError
  | b :: f =>
      let kind := b.toNat / 32
      let low := b.toNat % 32
      if low < 24 then .ok ((kind, low), f)
      else if low < 28 then
        (readSized (2 ^ (low - 24)) f).map fun r => ((kind, r.1), r.2)
      else .error .valueError

theorem readSized_append {size n : ℕ} (hn : n < 256 ^ size) (rest : Bytes) :
    readSized size (BigEndian.ofNat size n ++ rest) = .ok (n, rest) := by
  unfold readSized
  have hlength := BigEndian.length_ofNat size n
  rw [List.take_left' hlength, if_pos hlength, List.drop_left' hlength,
    BigEndian.toNat_ofNat_of_lt hn]

theorem readHead_sized {kind low n : ℕ} (hkind : kind < 8) (hlow : low < 4)
    (hn : n < 256 ^ 2 ^ low) (rest : Bytes) :
    readHead (UInt8.ofNat (32 * kind + (24 + low)) ::
      (BigEndian.ofNat (2 ^ low) n ++ rest)) = .ok ((kind, n), rest) := by
  have hnat : (UInt8.ofNat (32 * kind + (24 + low))).toNat =
      32 * kind + (24 + low) := by
    rw [UInt8.toNat_ofNat']
    omega
  unfold readHead
  dsimp only
  rw [hnat, if_neg (by omega), if_pos (by omega)]
  have hdiv : (32 * kind + (24 + low)) / 32 = kind := by omega
  have hmod : (32 * kind + (24 + low)) % 32 - 24 = low := by omega
  rw [hdiv, hmod, readSized_append hn]
  rfl

theorem readHead_append {kind n : ℕ} (hkind : kind < 8) {b : Bytes}
    (h : cborHead kind n = .ok b) (rest : Bytes) :
    readHead (b ++ rest) = .ok ((kind, n), rest) := by
  unfold cborHead at h
  split_ifs at h with hsmall h₁ h₂ h₄ h₈
  · have hnat : (UInt8.ofNat (32 * kind + n)).toNat = 32 * kind + n := by
      rw [UInt8.toNat_ofNat']
      omega
    rw [← Except.ok.inj h, List.singleton_append, readHead, hnat]
    have hdiv : (32 * kind + n) / 32 = kind := by omega
    have hmod : (32 * kind + n) % 32 = n := by omega
    rw [hdiv, hmod, if_pos hsmall]
  · rw [← Except.ok.inj h]
    exact @readHead_sized kind 0 n hkind (by omega) h₁ rest
  · rw [← Except.ok.inj h]
    exact @readHead_sized kind 1 n hkind (by omega) h₂ rest
  · rw [← Except.ok.inj h]
    exact @readHead_sized kind 2 n hkind (by omega) h₄ rest
  · rw [← Except.ok.inj h]
    exact @readHead_sized kind 3 n hkind (by omega) h₈ rest

theorem cborHead_length_pos {kind n : ℕ} {b : Bytes}
    (h : cborHead kind n = .ok b) : 0 < b.length := by
  unfold cborHead at h
  split_ifs at h
  all_goals
    rw [← Except.ok.inj h]
    exact Nat.succ_pos _

/-! ## Items -/

def utf8 (s : String) : Bytes :=
  s.toByteArray.data.toList

def ofUtf8 (b : Bytes) : Except PyException String :=
  match String.fromUTF8? ⟨⟨b⟩⟩ with
  | some s => .ok s
  | none => .error .valueError

theorem ofUtf8_utf8 (s : String) : ofUtf8 (utf8 s) = .ok s := by
  unfold ofUtf8 utf8 String.fromUTF8?
  rw [dif_pos s.isValidUTF8]
  rfl

mutual

def cborDumps : PyObject → Except PyException Bytes
  | .none => cborHead 7 22
  | .bool b => cborHead 7 (if b then 21 else 20)
  | .int n => if 0 ≤ n then cborHead 0 n.toNat else cborHead 1 (-1 - n).toNat
  | .bytes b => do
      let size ← cborHead 2 b.length
      .ok (size ++ b)
  | .str s => do
      let size ← cborHead 3 (utf8 s).length
      .ok (size ++ utf8 s)
  | .list items => do
      let size ← cborHead 4 items.length
      let items ← cborDumpsList items
      .ok (size ++ items)
  | .dict items => do
      let size ← cborHead 5 items.length
      let items ← cborDumpsItems items
      .ok (size ++ items)
  | _ => .error .typeError

def cborDumpsList : List PyObject → Except PyException Bytes
  | [] => .ok []
  | item :: items => do
      let item ← cborDumps item
      let items ← cborDumpsList items
      .ok (item ++ items)

def cborDumpsItems : List (PyObject × PyObject) → Except PyException Bytes
  | [] => .ok []
  | (k, v) :: items => do
      let k ← cborDumps k
      let v ← cborDumps v
      let items ← cborDumpsItems items
      .ok (k ++ (v ++ items))

end

def readBlob (size : ℕ) : CborReader Bytes := fun f =>
  if (f.take size).length = size then .ok (f.take size, f.drop size)
  else .error .indexError

theorem readBlob_append (b rest : Bytes) :
    readBlob b.length (b ++ rest) = .ok (b, rest) := by
  unfold readBlob
  rw [List.take_left, if_pos rfl, List.drop_left]

def readPair {α : Type} (read : CborReader α) : CborReader (α × α) := do
  let k ← read
  let v ← read
  pure (k, v)

/-- What follows the head of an item; `read` reads the items inside. -/
def readContent (read : CborReader PyObject) :
    ℕ × ℕ → CborReader PyObject
  | (0, n) => pure (.int n)
  | (1, n) => pure (.int (-1 - n))
  | (2, n) => do
      let b ← readBlob n
      pure (.bytes b)
  | (3, n) => do
      let b ← readBlob n
      let s ← StateT.lift (ofUtf8 b)
      pure (.str s)
  | (4, n) => do
      let items ← readItems read n
      pure (.list items)
  | (5, n) => do
      let items ← readItems (readPair read) n
      pure (.dict items)
  | (7, 20) => pure (.bool false)
  | (7, 21) => pure (.bool true)
  | (7, 22) => pure .none
  | _ => StateT.lift (.error .valueError)

def cborReadFuel : ℕ → CborReader PyObject
  | 0 => StateT.lift (.error .indexError)
  | fuel + 1 => readHead >>= readContent (cborReadFuel fuel)

/-- What is left of the blob is ignored. -/
def cborLoads (blob : Bytes) : Except PyException PyObject :=
  (cborReadFuel blob.length blob).map Prod.fst

theorem cborReadFuel_head {kind n : ℕ} (hkind : kind < 8) {head : Bytes}
    (h : cborHead kind n = .ok head) (fuel : ℕ) (rest : Bytes) :
    cborReadFuel (fuel + 1) (head ++ rest) =
      readContent (cborReadFuel fuel) (kind, n) rest := by
  rw [cborReadFuel]
  change (readHead (head ++ rest) >>= fun r => _) = _
  rw [readHead_append hkind h]
  rfl

theorem cborDumps_length_pos {d : PyObject} {b : Bytes}
    (h : cborDumps d = .ok b) : 0 < b.length := by
  have happend : ∀ {kind n : ℕ} {head rest : Bytes},
      cborHead kind n = .ok head → 0 < (head ++ rest).length := by
    intro kind n head rest hhead
    rw [List.length_append]
    exact Nat.add_pos_left (cborHead_length_pos hhead) _
  unfold cborDumps at h
  split at h
  case h_3 =>
    split_ifs at h
    · exact cborHead_length_pos h
    · exact cborHead_length_pos h
  case h_8 => cases h
  case h_1 => exact cborHead_length_pos h
  case h_2 => exact cborHead_length_pos h
  case h_4 =>
    obtain ⟨size, hsize, h⟩ := Except.bind_eq_ok_iff.mp h
    rw [← Except.ok.inj h]
    exact happend hsize
  case h_5 =>
    obtain ⟨size, hsize, h⟩ := Except.bind_eq_ok_iff.mp h
    rw [← Except.ok.inj h]
    exact happend hsize
  all_goals
    obtain ⟨size, hsize, h⟩ := Except.bind_eq_ok_iff.mp h
    obtain ⟨items, -, h⟩ := Except.bind_eq_ok_iff.mp h
    rw [← Except.ok.inj h]
    exact happend hsize

mutual

theorem cborReadFuel_append : ∀ {d : PyObject} {b : Bytes},
    cborDumps d = .ok b → ∀ {fuel : ℕ}, b.length ≤ fuel → ∀ rest,
      cborReadFuel fuel (b ++ rest) = .ok (d, rest)
  | _, _, h, 0, hfuel, _ =>
      absurd (cborDumps_length_pos h) (not_lt.mpr hfuel)
  | .none, _, h, fuel + 1, _, rest => by
      rw [cborReadFuel_head (by omega) h]
      rfl
  | .bool true, _, h, fuel + 1, _, rest => by
      rw [cborReadFuel_head (by omega) h]
      rfl
  | .bool false, _, h, fuel + 1, _, rest => by
      rw [cborReadFuel_head (by omega) h]
      rfl
  | .int n, _, h, fuel + 1, _, rest => by
      unfold cborDumps at h
      split_ifs at h with hn
      · rw [cborReadFuel_head (by omega) h]
        exact congrArg (fun n => Except.ok (PyObject.int n, rest))
          (Int.toNat_of_nonneg hn)
      · rw [cborReadFuel_head (by omega) h]
        have hnat : (-1 - ((-1 - n).toNat : ℤ)) = n := by omega
        exact congrArg (fun n => Except.ok (PyObject.int n, rest)) hnat
  | .bytes blob, _, h, fuel + 1, _, rest => by
      obtain ⟨size, hsize, h⟩ := Except.bind_eq_ok_iff.mp h
      rw [← Except.ok.inj h, List.append_assoc,
        cborReadFuel_head (by omega) hsize]
      change (readBlob blob.length (blob ++ rest) >>= fun r => _) = _
      rw [readBlob_append]
      rfl
  | .str s, _, h, fuel + 1, _, rest => by
      obtain ⟨size, hsize, h⟩ := Except.bind_eq_ok_iff.mp h
      rw [← Except.ok.inj h, List.append_assoc,
        cborReadFuel_head (by omega) hsize]
      change (readBlob (utf8 s).length (utf8 s ++ rest) >>= fun r => _) = _
      rw [readBlob_append]
      change (StateT.lift (ofUtf8 (utf8 s)) rest >>= fun r => _) = _
      rw [ofUtf8_utf8]
      rfl
  | .list items, _, h, fuel + 1, hfuel, rest => by
      obtain ⟨size, hsize, h⟩ := Except.bind_eq_ok_iff.mp h
      obtain ⟨content, hcontent, h⟩ := Except.bind_eq_ok_iff.mp h
      have hpos := cborHead_length_pos hsize
      rw [← Except.ok.inj h, List.length_append] at hfuel
      rw [← Except.ok.inj h, List.append_assoc,
        cborReadFuel_head (by omega) hsize]
      change (readItems (cborReadFuel fuel) items.length (content ++ rest) >>=
        fun r => _) = _
      rw [cborReadFuel_list hcontent (by omega)]
      rfl
  | .dict items, _, h, fuel + 1, hfuel, rest => by
      obtain ⟨size, hsize, h⟩ := Except.bind_eq_ok_iff.mp h
      obtain ⟨content, hcontent, h⟩ := Except.bind_eq_ok_iff.mp h
      have hpos := cborHead_length_pos hsize
      rw [← Except.ok.inj h, List.length_append] at hfuel
      rw [← Except.ok.inj h, List.append_assoc,
        cborReadFuel_head (by omega) hsize]
      change (readItems (readPair (cborReadFuel fuel)) items.length
        (content ++ rest) >>= fun r => _) = _
      rw [cborReadFuel_items hcontent (by omega)]
      rfl
  | .float _, _, h, _ + 1, _, _ => by cases h
  | .coercible _, _, h, _ + 1, _, _ => by cases h
  | .other _ _, _, h, _ + 1, _, _ => by cases h

theorem cborReadFuel_list : ∀ {items : List PyObject} {b : Bytes},
    cborDumpsList items = .ok b → ∀ {fuel : ℕ}, b.length ≤ fuel → ∀ rest,
      readItems (cborReadFuel fuel) items.length (b ++ rest) =
        .ok (items, rest)
  | [], _, h, _, _, _ => by
      rw [← Except.ok.inj h]
      rfl
  | item :: items, _, h, fuel, hfuel, rest => by
      obtain ⟨first, hfirst, h⟩ := Except.bind_eq_ok_iff.mp h
      obtain ⟨others, hothers, h⟩ := Except.bind_eq_ok_iff.mp h
      rw [← Except.ok.inj h, List.length_append] at hfuel
      rw [← Except.ok.inj h, List.append_assoc]
      change (cborReadFuel fuel (first ++ (others ++ rest)) >>= fun r => _) = _
      rw [cborReadFuel_append hfirst (by omega)]
      change (readItems (cborReadFuel fuel) items.length (others ++ rest) >>=
        fun r => _) = _
      rw [cborReadFuel_list hothers (by omega)]
      rfl

theorem cborReadFuel_items : ∀ {items : List (PyObject × PyObject)}
    {b : Bytes}, cborDumpsItems items = .ok b →
      ∀ {fuel : ℕ}, b.length ≤ fuel → ∀ rest,
        readItems (readPair (cborReadFuel fuel)) items.length (b ++ rest) =
          .ok (items, rest)
  | [], _, h, _, _, _ => by
      rw [← Except.ok.inj h]
      rfl
  | (k, v) :: items, _, h, fuel, hfuel, rest => by
      obtain ⟨first, hfirst, h⟩ := Except.bind_eq_ok_iff.mp h
      obtain ⟨second, hsecond, h⟩ := Except.bind_eq_ok_iff.mp h
      obtain ⟨others, hothers, h⟩ := Except.bind_eq_ok_iff.mp h
      rw [← Except.ok.inj h, List.length_append, List.length_append] at hfuel
      rw [← Except.ok.inj h, List.append_assoc, List.append_assoc]
      change ((cborReadFuel fuel (first ++ (second ++ (others ++ rest))) >>=
        fun r => _) >>= fun r => _) = _
      rw [cborReadFuel_append hfirst (by omega)]
      change ((cborReadFuel fuel (second ++ (others ++ rest)) >>=
        fun r => _) >>= fun r => _) = _
      rw [cborReadFuel_append hsecond (by omega)]
      change (readItems (readPair (cborReadFuel fuel)) items.length
        (others ++ rest) >>= fun r => _) = _
      rw [cborReadFuel_items hothers (by omega)]
      rfl

end

def cborMessaging : Messaging where
  format
    | .str s => s
    | _ => "None"
  text _ := "exception"
  dumps := cborDumps
  loads := cborLoads
  mapAiterRaises _ := none

theorem cborLoads_of_dumps {d : PyObject} {blob : Bytes}
    (h : cborDumps d = .ok blob) : cborLoads blob = .ok d := by
  have hread := cborReadFuel_append h le_rfl []
  rw [List.append_nil] at hread
  unfold cborLoads
  rw [hread]
  rfl

theorem cborMessaging_lawful : cborMessaging.Lawful where
  loads_dumps _ _ _ _ h := cborLoads_of_dumps h

theorem cborMessaging_dropsItems : cborMessaging.DropsItems :=
  fun _ => rfl

end Reference

end LedgerSim
