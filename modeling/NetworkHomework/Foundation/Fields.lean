import Mathlib.Data.List.GetD

/-!
# Records in memory

A record is a list of bytes of fixed length, and a layout says where its fields lie.
Fields may be read, and overwritten by as many bytes as they have.  A layout in which
the fields do not overlap and leave no gap makes a record as good as its fields.
-/

namespace Fields

variable {α ι : Type*}

/-- The `len` bytes at `off`. -/
def field (off len : ℕ) (bytes : List α) : List α := (bytes.drop off).take len

/-- `bytes` with `src` copied to `off`. -/
def overwrite (off : ℕ) (src bytes : List α) : List α :=
  bytes.mapIdx fun i byte => if off ≤ i then src.getD (i - off) byte else byte

@[simp] theorem length_overwrite (off : ℕ) (src bytes : List α) :
    (overwrite off src bytes).length = bytes.length := by
  simp [overwrite]

theorem length_field {off len : ℕ} {bytes : List α} (h : off + len ≤ bytes.length) :
    (field off len bytes).length = len := by
  rw [field, List.length_take, List.length_drop]
  omega

theorem getElem?_field (off len : ℕ) (bytes : List α) (i : ℕ) :
    (field off len bytes)[i]? = if i < len then bytes[off + i]? else none := by
  rw [field, List.getElem?_take, List.getElem?_drop]

theorem getElem?_overwrite (off : ℕ) (src bytes : List α) (i : ℕ) :
    (overwrite off src bytes)[i]? =
      bytes[i]?.map fun byte => if off ≤ i then src.getD (i - off) byte else byte := by
  simp [overwrite, List.getElem?_mapIdx]

/-- What is written is read back. -/
theorem field_overwrite {off : ℕ} {src bytes : List α} (h : off + src.length ≤ bytes.length) :
    field off src.length (overwrite off src bytes) = src := by
  refine List.ext_getElem? fun i => ?_
  rw [getElem?_field, getElem?_overwrite]
  by_cases hi : i < src.length
  · rw [if_pos hi, List.getElem?_eq_getElem (by omega), Option.map_some, if_pos (by omega),
      Nat.add_sub_cancel_left, List.getD_eq_getElem _ _ hi, List.getElem?_eq_getElem hi]
  · rw [if_neg hi, List.getElem?_eq_none (by omega)]

/-- The other bytes stay. -/
theorem field_overwrite_of_disjoint {off off' len : ℕ} {src bytes : List α}
    (h : off' + len ≤ off ∨ off + src.length ≤ off') :
    field off' len (overwrite off src bytes) = field off' len bytes := by
  refine List.ext_getElem? fun i => ?_
  rw [getElem?_field, getElem?_field, getElem?_overwrite]
  by_cases hi : i < len
  · rw [if_pos hi, if_pos hi]
    cases bytes[off' + i]? with
    | none => rfl
    | some byte =>
        rw [Option.map_some]
        by_cases hbehind : off ≤ off' + i
        · rw [if_pos hbehind, List.getD_eq_default _ _ (by omega)]
        · rw [if_neg hbehind]
  · rw [if_neg hi, if_neg hi]

theorem field_take_append {off len n : ℕ} {bytes : List α} (h : off + len ≤ n)
    (hn : n ≤ bytes.length) (more : List α) :
    field off len (bytes.take n ++ more) = field off len bytes := by
  refine List.ext_getElem? fun i => ?_
  rw [getElem?_field, getElem?_field]
  by_cases hi : i < len
  · rw [if_pos hi, if_pos hi, List.getElem?_append_left (by rw [List.length_take]; omega),
      List.getElem?_take_of_lt (by omega)]
  · rw [if_neg hi, if_neg hi]

theorem field_append_right (front bytes : List α) (off len : ℕ) :
    field (front.length + off) len (front ++ bytes) = field off len bytes := by
  rw [field, List.drop_append, List.drop_eq_nil_of_le (Nat.le_add_right _ _), List.nil_append,
    Nat.add_sub_cancel_left, field]

theorem take_overwrite_of_le {off n : ℕ} (h : n ≤ off) (src bytes : List α) :
    (overwrite off src bytes).take n = bytes.take n := by
  refine List.ext_getElem? fun i => ?_
  rw [List.getElem?_take, List.getElem?_take, getElem?_overwrite]
  by_cases hi : i < n
  · rw [if_pos hi, if_pos hi]
    cases bytes[i]? with
    | none => rfl
    | some byte => rw [Option.map_some, if_neg (by omega)]
  · rw [if_neg hi, if_neg hi]

/-- Fields side by side that fill `total` bytes. -/
structure Layout (ι : Type*) where
  offset : ι → ℕ
  size : ι → ℕ
  total : ℕ
  bounded : ∀ f, offset f + size f ≤ total
  disjoint : ∀ f g, f ≠ g → offset f + size f ≤ offset g ∨ offset g + size g ≤ offset f
  covers : ∀ i < total, ∃ f, offset f ≤ i ∧ i < offset f + size f

/-- The bytes of a record. -/
structure Record (α : Type*) (layout : Layout ι) where
  bytes : List α
  length_bytes : bytes.length = layout.total

namespace Record

variable {layout : Layout ι} (r : Record α layout)

def get (f : ι) : List α := field (layout.offset f) (layout.size f) r.bytes

/-- `memcpy(&r.f, src, sizeof(r.f))` -/
def set (f : ι) (src : List α) : Record α layout where
  bytes := overwrite (layout.offset f) (src.take (layout.size f)) r.bytes
  length_bytes := by rw [length_overwrite, r.length_bytes]

theorem length_get (f : ι) : (r.get f).length = layout.size f :=
  length_field (r.length_bytes ▸ layout.bounded f)

theorem get_set {f : ι} {src : List α} (h : src.length = layout.size f) :
    (r.set f src).get f = src := by
  have hbounded := layout.bounded f
  have htake : src.take (layout.size f) = src := List.take_of_length_le (Nat.le_of_eq h)
  simp only [get, set, htake]
  rw [← h]
  exact field_overwrite (by rw [r.length_bytes, h]; exact hbounded)

theorem get_set_of_ne {f g : ι} (hne : g ≠ f) (src : List α) :
    (r.set f src).get g = r.get g := by
  refine field_overwrite_of_disjoint ?_
  have hlength := List.length_take_le (layout.size f) src
  have hdisjoint := layout.disjoint g f hne
  omega

theorem ext_bytes {r r' : Record α layout} (h : r.bytes = r'.bytes) : r = r' := by
  cases r
  cases r'
  congr

/-- A record is determined by its fields. -/
theorem ext_get {r r' : Record α layout} (h : ∀ f, r.get f = r'.get f) : r = r' := by
  refine ext_bytes (List.ext_getElem? fun i => ?_)
  by_cases hi : i < layout.total
  · obtain ⟨f, hlow, hhigh⟩ := layout.covers i hi
    have hget := congrArg (fun bytes : List α => bytes[i - layout.offset f]?) (h f)
    simp only [get, getElem?_field] at hget
    rwa [if_pos (by omega), if_pos (by omega), Nat.add_sub_of_le hlow] at hget
  · rw [List.getElem?_eq_none (by rw [r.length_bytes]; omega),
      List.getElem?_eq_none (by rw [r'.length_bytes]; omega)]

end Record

end Fields
