import Mathlib.Data.List.OfFn
import Mathlib.Logic.Equiv.Fin.Basic
import Mathlib.Tactic.Linarith
import Mathlib.Tactic.Ring

/-!
# SoundScreen.Lib.Array3

Arrays of three axes in row-major order: element `(i, j, k)` of shape `(d0, d1, d2)` is element
`(i * d1 + j) * d2 + k` of the buffer (`flat_val`, `get?_eq_data`).

* `ext_get?`: an array is its shape and its elements.
* `reshape`, `transpose`, `padLast`, `cropLast`, each with its elements (`get?_...`).
* `zip`: the operands of an elementwise operation, axes of length 1 stretched.
* `exists_ofFn`, `map_ofFn`, `zip_ofFn`: elementwise operations on arrays given by functions.
* `transpose_transpose`, `reshape_reshape`, `cropLast_padLast`: what undoes what.
-/

namespace SoundScreen

structure Array3 (α : Type*) where
  d0 : Nat
  d1 : Nat
  d2 : Nat
  data : List α
  size : data.length = d0 * d1 * d2

namespace Array3

variable {α β : Type*}

/-! ## Indices -/

section Index

variable {d0 d1 d2 : Nat}

/-- The place of element `(i, j, k)` in the buffer. -/
def flat (i : Fin d0) (j : Fin d1) (k : Fin d2) : Fin (d0 * d1 * d2) :=
  finProdFinEquiv (finProdFinEquiv (i, j), k)

def coords (p : Fin (d0 * d1 * d2)) : Fin d0 × Fin d1 × Fin d2 :=
  let q := finProdFinEquiv.symm p
  let r := finProdFinEquiv.symm q.1
  (r.1, r.2, q.2)

theorem flat_val (i : Fin d0) (j : Fin d1) (k : Fin d2) :
    (flat i j k).val = (i.val * d1 + j.val) * d2 + k.val := by
  simp only [flat, finProdFinEquiv_apply_val]
  ring

@[simp] theorem coords_flat (i : Fin d0) (j : Fin d1) (k : Fin d2) :
    coords (flat i j k) = (i, j, k) := by
  simp [coords, flat]

theorem flat_coords (p : Fin (d0 * d1 * d2)) :
    flat (coords p).1 (coords p).2.1 (coords p).2.2 = p := by
  simp only [flat, coords, Prod.mk.eta, Equiv.apply_symm_apply]

end Index

/-! ## Elements -/

def shape (a : Array3 α) : Nat × Nat × Nat := (a.d0, a.d1, a.d2)

def get (a : Array3 α) (i : Fin a.d0) (j : Fin a.d1) (k : Fin a.d2) : α :=
  a.data.get ((flat i j k).cast a.size.symm)

def get? (a : Array3 α) (i j k : Nat) : Option α :=
  if h : i < a.d0 ∧ j < a.d1 ∧ k < a.d2 then some (a.get ⟨i, h.1⟩ ⟨j, h.2.1⟩ ⟨k, h.2.2⟩) else none

theorem get?_eq_some {a : Array3 α} {i j k : Nat} (hi : i < a.d0) (hj : j < a.d1)
    (hk : k < a.d2) : a.get? i j k = some (a.get ⟨i, hi⟩ ⟨j, hj⟩ ⟨k, hk⟩) := dif_pos ⟨hi, hj, hk⟩

theorem get?_isSome {a : Array3 α} {i j k : Nat} {x : α} (h : a.get? i j k = some x) :
    i < a.d0 ∧ j < a.d1 ∧ k < a.d2 := by
  by_contra hn
  rw [get?, dif_neg hn] at h
  cases h

theorem get?_eq_none {a : Array3 α} {i j k : Nat} (h : ¬ (i < a.d0 ∧ j < a.d1 ∧ k < a.d2)) :
    a.get? i j k = none := dif_neg h

theorem get?_eq_data {a : Array3 α} {i j k : Nat} (hi : i < a.d0) (hj : j < a.d1)
    (hk : k < a.d2) : a.get? i j k = a.data[(i * a.d1 + j) * a.d2 + k]? := by
  have hval := flat_val (⟨i, hi⟩ : Fin a.d0) (⟨j, hj⟩ : Fin a.d1) (⟨k, hk⟩ : Fin a.d2)
  have hlt : (i * a.d1 + j) * a.d2 + k < a.data.length := by
    rw [a.size, ← hval]
    exact Fin.isLt _
  rw [get?_eq_some hi hj hk, List.getElem?_eq_getElem hlt, get]
  exact congrArg some (congrArg a.data.get (Fin.ext hval))

theorem ext_get? {a b : Array3 α} (hshape : a.shape = b.shape)
    (h : ∀ i j k, i < a.d0 → j < a.d1 → k < a.d2 → a.get? i j k = b.get? i j k) : a = b := by
  obtain ⟨d0, d1, d2, xs, hx⟩ := a
  obtain ⟨e0, e1, e2, ys, hy⟩ := b
  simp only [shape, Prod.mk.injEq] at hshape
  obtain ⟨rfl, rfl, rfl⟩ := hshape
  have hdata : xs = ys := by
    refine List.ext_getElem? ?_
    intro p
    by_cases hp : p < d0 * d1 * d2
    · have hc := congrArg Fin.val (flat_coords ⟨p, hp⟩)
      rw [flat_val] at hc
      have he := h _ _ _ (coords ⟨p, hp⟩).1.isLt (coords ⟨p, hp⟩).2.1.isLt
        (coords ⟨p, hp⟩).2.2.isLt
      rw [get?_eq_data (Fin.isLt _) (Fin.isLt _) (Fin.isLt _),
        get?_eq_data (Fin.isLt _) (Fin.isLt _) (Fin.isLt _)] at he
      rw [hc] at he
      exact he
    · rw [List.getElem?_eq_none (by omega), List.getElem?_eq_none (by omega)]
  subst hdata
  rfl

def ofFn (d0 d1 d2 : Nat) (f : Fin d0 → Fin d1 → Fin d2 → α) : Array3 α where
  d0 := d0
  d1 := d1
  d2 := d2
  data := List.ofFn fun p => f (coords p).1 (coords p).2.1 (coords p).2.2
  size := List.length_ofFn

theorem get?_ofFn {d0 d1 d2 i j k : Nat} (f : Fin d0 → Fin d1 → Fin d2 → α) (hi : i < d0)
    (hj : j < d1) (hk : k < d2) :
    (ofFn d0 d1 d2 f).get? i j k = some (f ⟨i, hi⟩ ⟨j, hj⟩ ⟨k, hk⟩) := by
  have hlt := (flat (⟨i, hi⟩ : Fin d0) (⟨j, hj⟩ : Fin d1) (⟨k, hk⟩ : Fin d2)).isLt
  rw [flat_val] at hlt
  have hp : (⟨(i * d1 + j) * d2 + k, hlt⟩ : Fin (d0 * d1 * d2)) =
      flat ⟨i, hi⟩ ⟨j, hj⟩ ⟨k, hk⟩ := Fin.ext (flat_val ⟨i, hi⟩ ⟨j, hj⟩ ⟨k, hk⟩).symm
  rw [get?_eq_data hi hj hk]
  simp only [ofFn, List.getElem?_ofFn, dif_pos hlt, hp, coords_flat]

/-! ## Shapes -/

/-- The same buffer under another shape. -/
def reshape (a : Array3 α) (d0 d1 d2 : Nat) (h : a.d0 * a.d1 * a.d2 = d0 * d1 * d2) : Array3 α :=
  ⟨d0, d1, d2, a.data, a.size.trans h⟩

theorem reshape_reshape (a : Array3 α) {d0 d1 d2 : Nat} (h : a.d0 * a.d1 * a.d2 = d0 * d1 * d2)
    (h' : d0 * d1 * d2 = a.d0 * a.d1 * a.d2) :
    (a.reshape d0 d1 d2 h).reshape a.d0 a.d1 a.d2 h' = a := rfl

/-- `transpose(0, 2, 1)`. -/
def transpose (a : Array3 α) : Array3 α := ofFn a.d0 a.d2 a.d1 fun i k j => a.get i j k

theorem get?_transpose (a : Array3 α) (i j k : Nat) : a.transpose.get? i k j = a.get? i j k := by
  by_cases h : i < a.d0 ∧ j < a.d1 ∧ k < a.d2
  · rw [transpose, get?_ofFn _ h.1 h.2.2 h.2.1, get?_eq_some h.1 h.2.1 h.2.2]
  · have ht : ¬ (i < a.transpose.d0 ∧ k < a.transpose.d1 ∧ j < a.transpose.d2) :=
      fun h' => h ⟨h'.1, h'.2.2, h'.2.1⟩
    rw [get?_eq_none h, get?_eq_none ht]

theorem transpose_transpose (a : Array3 α) : a.transpose.transpose = a := by
  refine ext_get? rfl ?_
  intro i j k _ _ _
  rw [get?_transpose, get?_transpose]

/-- `p` more elements, all `z`, at the end of the last axis. -/
def padLast (a : Array3 α) (p : Nat) (z : α) : Array3 α :=
  ofFn a.d0 a.d1 (a.d2 + p) fun i j k => if h : k.val < a.d2 then a.get i j ⟨k, h⟩ else z

theorem get?_padLast (a : Array3 α) (p : Nat) (z : α) (i j : Nat) {k : Nat} (hk : k < a.d2) :
    (a.padLast p z).get? i j k = a.get? i j k := by
  by_cases h : i < a.d0 ∧ j < a.d1
  · rw [padLast, get?_ofFn _ h.1 h.2 (Nat.lt_add_right p hk), get?_eq_some h.1 h.2 hk, dif_pos hk]
  · have hp : ¬ (i < (a.padLast p z).d0 ∧ j < (a.padLast p z).d1 ∧ k < (a.padLast p z).d2) :=
      fun h' => h ⟨h'.1, h'.2.1⟩
    rw [get?_eq_none hp, get?_eq_none fun h' => h ⟨h'.1, h'.2.1⟩]

theorem get?_padding (a : Array3 α) {p : Nat} (z : α) {i j k : Nat} (hi : i < a.d0)
    (hj : j < a.d1) (hk : a.d2 ≤ k) (hp : k < a.d2 + p) : (a.padLast p z).get? i j k = some z := by
  rw [padLast, get?_ofFn _ hi hj hp, dif_neg (Nat.not_lt.mpr hk)]

theorem padLast_zero (a : Array3 α) (z : α) : a.padLast 0 z = a :=
  ext_get? rfl fun i j _ _ _ hk => get?_padLast a 0 z i j hk

/-- `a[:, :, :n]`. -/
def cropLast (a : Array3 α) (n : Nat) : Array3 α :=
  ofFn a.d0 a.d1 (min n a.d2) fun i j k => a.get i j ⟨k, k.isLt.trans_le (Nat.min_le_right n a.d2)⟩

theorem get?_cropLast (a : Array3 α) {n : Nat} (hn : n ≤ a.d2) (i j : Nat) {k : Nat} (hk : k < n) :
    (a.cropLast n).get? i j k = a.get? i j k := by
  have hk' : k < a.d2 := hk.trans_le hn
  by_cases h : i < a.d0 ∧ j < a.d1
  · rw [cropLast, get?_ofFn _ h.1 h.2 (lt_min hk hk'), get?_eq_some h.1 h.2 hk']
  · have hc : ¬ (i < (a.cropLast n).d0 ∧ j < (a.cropLast n).d1 ∧ k < (a.cropLast n).d2) :=
      fun h' => h ⟨h'.1, h'.2.1⟩
    rw [get?_eq_none hc, get?_eq_none fun h' => h ⟨h'.1, h'.2.1⟩]

theorem cropLast_padLast (a : Array3 α) (p : Nat) (z : α) :
    (a.padLast p z).cropLast a.d2 = a := by
  have hle : a.d2 ≤ (a.padLast p z).d2 := Nat.le_add_right a.d2 p
  refine ext_get? ?_ ?_
  · simp only [shape, cropLast, padLast, ofFn, min_eq_left (Nat.le_add_right a.d2 p)]
  · intro i j k _ _ hk
    have hk' : k < a.d2 := hk.trans_le (Nat.min_le_left _ _)
    rw [get?_cropLast _ hle i j hk', get?_padLast a p z i j hk']

/-! ## Elementwise operations -/

def map (f : α → β) (a : Array3 α) : Array3 β :=
  ⟨a.d0, a.d1, a.d2, a.data.map f, by rw [List.length_map, a.size]⟩

/-- An axis of two operands: its length and the index it reads of each. -/
structure Axis (m n : Nat) where
  len : Nat
  left : Fin len → Fin m
  right : Fin len → Fin n

/-- The axes have one length, or one of them has length 1 and is stretched. -/
def axis (m n : Nat) : Option (Axis m n) :=
  if h : m = n then some ⟨n, Fin.cast h.symm, id⟩
  else if h : m = 1 then some ⟨n, fun _ => ⟨0, h ▸ Nat.one_pos⟩, id⟩
  else if h : n = 1 then some ⟨m, id, fun _ => ⟨0, h ▸ Nat.one_pos⟩⟩
  else none

/-- The pairs of elements an elementwise operation combines. -/
def zip (a : Array3 α) (b : Array3 β) : Option (Array3 (α × β)) :=
  match axis a.d0 b.d0, axis a.d1 b.d1, axis a.d2 b.d2 with
  | some x, some y, some z => some (ofFn x.len y.len z.len fun i j k =>
      (a.get (x.left i) (y.left j) (z.left k), b.get (x.right i) (y.right j) (z.right k)))
  | _, _, _ => none

section OfFn

variable {d0 d1 d2 : Nat} (f : Fin d0 → Fin d1 → Fin d2 → α) (g : Fin d0 → Fin d1 → Fin d2 → β)

theorem get_ofFn (i : Fin d0) (j : Fin d1) (k : Fin d2) :
    (ofFn d0 d1 d2 f).get i j k = f i j k := by
  have h := get?_ofFn f i.isLt j.isLt k.isLt
  rw [get?_eq_some (a := ofFn d0 d1 d2 f) i.isLt j.isLt k.isLt] at h
  exact Option.some.inj h

theorem mem_ofFn {x : α} : x ∈ (ofFn d0 d1 d2 f).data ↔ ∃ i j k, f i j k = x := by
  simp only [ofFn, List.mem_ofFn]
  constructor
  · rintro ⟨p, rfl⟩
    exact ⟨_, _, _, rfl⟩
  · rintro ⟨i, j, k, rfl⟩
    exact ⟨flat i j k, by rw [coords_flat]⟩

theorem map_ofFn (h : α → β) :
    (ofFn d0 d1 d2 f).map h = ofFn d0 d1 d2 fun i j k => h (f i j k) := by
  simp only [map, ofFn, List.map_ofFn]
  rfl

theorem zip_ofFn : (ofFn d0 d1 d2 f).zip (ofFn d0 d1 d2 g) =
    some (ofFn d0 d1 d2 fun i j k => (f i j k, g i j k)) := by
  have haxis : ∀ n, axis n n = some ⟨n, id, id⟩ := fun n => dif_pos rfl
  have h0 : axis (ofFn d0 d1 d2 f).d0 (ofFn d0 d1 d2 g).d0 = some ⟨d0, id, id⟩ := haxis d0
  have h1 : axis (ofFn d0 d1 d2 f).d1 (ofFn d0 d1 d2 g).d1 = some ⟨d1, id, id⟩ := haxis d1
  have h2 : axis (ofFn d0 d1 d2 f).d2 (ofFn d0 d1 d2 g).d2 = some ⟨d2, id, id⟩ := haxis d2
  rw [zip, h0, h1, h2]
  simp only [id, get_ofFn]

theorem exists_ofFn {a : Array3 α} (h : a.shape = (d0, d1, d2)) : ∃ f, a = ofFn d0 d1 d2 f := by
  simp only [shape, Prod.mk.injEq] at h
  obtain ⟨rfl, rfl, rfl⟩ := h
  refine ⟨a.get, ext_get? rfl ?_⟩
  intro i j k hi hj hk
  rw [get?_eq_some hi hj hk, get?_ofFn _ hi hj hk]

end OfFn

end Array3
end SoundScreen
