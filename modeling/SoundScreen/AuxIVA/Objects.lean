import SoundScreen.AuxIVA.MatH

/-!
# SoundScreen.AuxIVA.Objects

The operators of `mat.h` that change their object, on named objects, since the operand may be the
object itself; and the size checks of all operators.

* `guardSound_iff`: a check is sound if it fails exactly on operands that do not conform, whatever
  the loops behind it do.
* `guards_iff`: for each operator, the sizes for which its check is sound.
-/

namespace SoundScreen
namespace MatH

variable {T ι : Type}

/-- The matrices by their names. -/
abbrev Objects (ι T : Type) := ι → Matrix T

namespace Objects

variable [DecidableEq ι]

/-- The loops of `+=` and `/=`: `data[row][col]` becomes `f` of it and `m.data[row][col]`. -/
def assign_cells (f : T → T → T) (this m : ι) (objects : Objects ι T) : Run (Objects ι T) :=
  (List.range (objects this).num_rows).foldlM (fun objects row =>
    (List.range (objects this).num_cols).foldlM (fun objects col => do
      let t ← (objects this).cell row col
      let t' ← (objects m).cell row col
      return Function.update objects this (← (objects this).set_cell row col (f t t'))) objects)
    objects

/-- `this += m`. -/
def operator_add_assign [Add T] (this m : ι) (objects : Objects ι T) : Run (Objects ι T) := do
  if (objects m).num_rows = (objects this).num_rows ∧
      (objects m).num_cols ≠ (objects this).num_cols then
    cerr "ERROR: operator+=(matrix) wrong sizes"
    return objects
  assign_cells (· + ·) this m objects

/-- `this /= m`. -/
def operator_div_assign [Div T] (this m : ι) (objects : Objects ι T) : Run (Objects ι T) := do
  if (objects m).num_rows ≠ (objects this).num_rows ∧
      (objects m).num_cols ≠ (objects this).num_cols then
    cerr "ERROR: operator/=(matrix) wrong sizes"
    return objects
  assign_cells (· / ·) this m objects

/-- `this *= m`. -/
def operator_mul_assign [Zero T] [Add T] [Mul T] (this m : ι) (objects : Objects ι T) :
    Run (Objects ι T) := do
  if (objects this).num_cols ≠ (objects m).num_rows then
    cerr <|
      s!"ERROR: operator*=(matrix) wrong sizes: {(objects this).num_cols}, {(objects m).num_rows}"
    return objects
  let r ← Matrix.fill (objects this).num_rows (objects m).num_cols fun row m_col =>
    (List.range (objects m).num_rows).foldlM (fun sum m_row =>
      return sum + (← (objects this).cell row m_row) * (← (objects m).cell m_row m_col)) 0
  return Function.update objects this r

/-- `this + m`, into an object of its own. -/
def operator_add [Add T] (this m : ι) (objects : Objects ι T) : Run (Objects ι T) := do
  let _ ← (objects this).operator_add (objects m)
  return objects

/-- `this * m`, into an object of its own. -/
def operator_mul [Zero T] [Add T] [Mul T] (this m : ι) (objects : Objects ι T) :
    Run (Objects ι T) := do
  let _ ← (objects this).operator_mul (objects m)
  return objects

/-- `this.inverse()`, into an object of its own. -/
def inverse [Zero T] [Neg T] [Sub T] [Mul T] [Div T] (this : ι) (objects : Objects ι T) :
    Run (Objects ι T) := do
  let _ ← (objects this).inverse
  return objects

end Objects

/-! ## What a computation leaves on `cerr` -/

/-- Nothing is written, also if there is a fault. -/
def Quiet {α : Type} (p : Run α) : Prop := ∀ lines, (p.run.run lines).2 = lines

section Quiet

variable {α β : Type}

theorem quiet_pure (a : α) : Quiet (pure a : Run α) := fun _ => rfl

theorem quiet_throw (e : Fault) : Quiet (throw e : Run α) := fun _ => rfl

theorem run_bind (p : Run α) (f : α → Run β) (lines : List String) :
    (p >>= f).run.run lines = match p.run.run lines with
      | (.ok a, lines) => (f a).run.run lines
      | (.error e, lines) => (.error e, lines) := by
  simp only [ExceptT.run_bind, StateT.run_bind]
  cases h : p.run.run lines with
  | mk result lines' =>
    cases result with
    | ok a => rfl
    | error e => rfl

theorem Quiet.bind {p : Run α} {f : α → Run β} (hp : Quiet p) (hf : ∀ a, Quiet (f a)) :
    Quiet (p >>= f) := by
  intro lines
  have hlines := hp lines
  rw [run_bind]
  cases h : p.run.run lines with
  | mk result lines' =>
    rw [h] at hlines
    cases result with
    | ok a => exact (hf a lines').trans hlines
    | error e => exact hlines

theorem Quiet.foldlM {f : β → α → Run β} (hf : ∀ b a, Quiet (f b a)) (l : List α) (b : β) :
    Quiet (l.foldlM f b) := by
  induction l generalizing b with
  | nil => exact quiet_pure b
  | cons a l ih =>
    rw [List.foldlM_cons]
    exact (hf b a).bind fun b' => ih b'

theorem Quiet.ofFnM {n : Nat} {f : Fin n → Run α} (hf : ∀ i, Quiet (f i)) :
    Quiet (Vector.ofFnM f) := by
  induction n with
  | zero =>
    rw [Vector.ofFnM_zero]
    exact quiet_pure _
  | succ n ih =>
    rw [Vector.ofFnM_succ]
    refine (ih fun i => hf i.castSucc).bind fun as => ?_
    exact (hf (Fin.last n)).bind fun a => quiet_pure _

end Quiet

theorem quiet_cell (m : Matrix T) (row col : Nat) : Quiet (m.cell row col) := by
  unfold Matrix.cell
  split
  · exact quiet_pure _
  · exact quiet_throw _

theorem quiet_set_cell (m : Matrix T) (row col : Nat) (t : T) : Quiet (m.set_cell row col t) := by
  unfold Matrix.set_cell
  split
  · exact quiet_pure _
  · exact quiet_throw _

theorem quiet_fill {rows cols : Nat} {entry : Nat → Nat → Run T}
    (h : ∀ row col, Quiet (entry row col)) : Quiet (Matrix.fill rows cols entry) := by
  unfold Matrix.fill
  refine (Quiet.ofFnM fun row => Quiet.ofFnM fun col => h row col).bind fun data => ?_
  exact quiet_pure _

/-! ## Loops inside their operands -/

theorem Matrix.cell_of_lt {m : Matrix T} {row col : Nat} (hr : row < m.num_rows)
    (hc : col < m.num_cols) : m.cell row col = pure (m.data ⟨row, hr⟩ ⟨col, hc⟩) :=
  m.cell_ok ⟨row, hr⟩ ⟨col, hc⟩

theorem Matrix.set_cell_of_lt {m : Matrix T} {row col : Nat} (hr : row < m.num_rows)
    (hc : col < m.num_cols) (t : T) : ∃ m', m.set_cell row col t = pure m' ∧
      m'.num_rows = m.num_rows ∧ m'.num_cols = m.num_cols :=
  ⟨_, if_pos ⟨hr, hc⟩, rfl, rfl⟩

namespace Objects

variable [DecidableEq ι]

/-- The sizes of the operands are those of `before`. -/
def SameSizes (before objects : Objects ι T) : Prop :=
  ∀ i, (objects i).num_rows = (before i).num_rows ∧ (objects i).num_cols = (before i).num_cols

theorem SameSizes.update {before objects : Objects ι T} (h : SameSizes before objects) (this : ι)
    {m : Matrix T} (hr : m.num_rows = (objects this).num_rows)
    (hc : m.num_cols = (objects this).num_cols) :
    SameSizes before (Function.update objects this m) := by
  intro i
  by_cases hi : i = this
  · rw [hi, Function.update_self, hr, hc]
    exact h this
  · rw [Function.update_of_ne hi]
    exact h i

theorem assign_cells_ok (f : T → T → T) {this m : ι} {objects : Objects ι T}
    (hr : (objects m).num_rows = (objects this).num_rows)
    (hc : (objects m).num_cols = (objects this).num_cols) :
    ∃ objects', assign_cells f this m objects = pure objects' := by
  have hrow : ∀ b, ∀ row ∈ List.range (objects this).num_rows, SameSizes objects b →
      ∃ b', (List.range (b this).num_cols).foldlM (fun b col => do
        let t ← (b this).cell row col
        let t' ← (b m).cell row col
        return Function.update b this (← (b this).set_cell row col (f t t'))) b = pure b' ∧
          SameSizes objects b' := by
    intro b row hrow hb
    rw [List.mem_range] at hrow
    refine Loop.foldlM_ok hb ?_
    intro b' col hcol hb'
    rw [List.mem_range, (hb this).2] at hcol
    have hrow₁ : row < (b' this).num_rows := by rwa [(hb' this).1]
    have hcol₁ : col < (b' this).num_cols := by rwa [(hb' this).2]
    have hrow₂ : row < (b' m).num_rows := by rwa [(hb' m).1, hr]
    have hcol₂ : col < (b' m).num_cols := by rwa [(hb' m).2, hc]
    obtain ⟨m', hset, hr', hc'⟩ := Matrix.set_cell_of_lt hrow₁ hcol₁
      (f ((b' this).data ⟨row, hrow₁⟩ ⟨col, hcol₁⟩) ((b' m).data ⟨row, hrow₂⟩ ⟨col, hcol₂⟩))
    refine ⟨Function.update b' this m', ?_, hb'.update this hr' hc'⟩
    rw [Matrix.cell_of_lt hrow₁ hcol₁, pure_bind, Matrix.cell_of_lt hrow₂ hcol₂, pure_bind, hset,
      pure_bind]
  obtain ⟨objects', hloop, -⟩ :=
    Loop.foldlM_ok (P := SameSizes objects) (fun _ => ⟨rfl, rfl⟩) hrow
  exact ⟨objects', hloop⟩

theorem quiet_assign_cells (f : T → T → T) (this m : ι) (objects : Objects ι T) :
    Quiet (assign_cells f this m objects) := by
  refine Quiet.foldlM (fun b row => Quiet.foldlM (fun b col => ?_) _ _) _ _
  refine (quiet_cell _ row col).bind fun t => (quiet_cell _ row col).bind fun t' => ?_
  exact (quiet_set_cell _ row col _).bind fun m' => quiet_pure _

end Objects

theorem fill_ok {rows cols : Nat} {entry : Nat → Nat → Run T}
    (h : ∀ row < rows, ∀ col < cols, ∃ t, entry row col = pure t) :
    ∃ m, Matrix.fill rows cols entry = pure m := by
  choose data hdata using fun (row : Fin rows) (col : Fin cols) => h row row.isLt col col.isLt
  exact ⟨_, Matrix.fill_pure hdata⟩

theorem product_entry_ok [Zero T] [Add T] [Mul T] {m1 m2 : Matrix T} {row col : Nat}
    (h : m1.num_cols = m2.num_rows) (hr : row < m1.num_rows) (hc : col < m2.num_cols) :
    ∃ t, (List.range m2.num_rows).foldlM (fun sum i => do
      return sum + (← m1.cell row i) * (← m2.cell i col)) 0 = (pure t : Run T) := by
  have hstep : ∀ sum, ∀ i ∈ List.range m2.num_rows, True → ∃ sum', (do
      return sum + (← m1.cell row i) * (← m2.cell i col)) = (pure sum' : Run T) ∧ True := by
    intro sum i hi _
    rw [List.mem_range] at hi
    rw [Matrix.cell_of_lt hr (by omega), pure_bind, Matrix.cell_of_lt hi hc, pure_bind]
    exact ⟨_, rfl, trivial⟩
  obtain ⟨t, ht, -⟩ := Loop.foldlM_ok (P := fun _ => True) trivial hstep
  exact ⟨t, ht⟩

theorem quiet_product_entry [Zero T] [Add T] [Mul T] (m1 m2 : Matrix T) (row col : Nat) :
    Quiet ((List.range m2.num_rows).foldlM (fun sum i => do
      return sum + (← m1.cell row i) * (← m2.cell i col)) 0) := by
  refine Quiet.foldlM (fun sum i => ?_) _ _
  exact (quiet_cell _ row i).bind fun t => (quiet_cell _ i col).bind fun t' => quiet_pure _

/-! ## Size checks -/

/-- A call complains exactly if its operands do not conform, and then leaves them as they are;
else it stays inside them. -/
structure GuardSound (conform : Prop) (objects : Objects ι T) (p : Run (Objects ι T)) : Prop where
  complains : (exec p).2 ≠ [] ↔ ¬conform
  unchanged : (exec p).2 ≠ [] → (exec p).1 = .ok objects
  inside : (exec p).2 = [] → ∃ objects', (exec p).1 = .ok objects'

theorem guardSound_iff {conform bad : Prop} [Decidable bad] {objects : Objects ι T} {line : String}
    {rest : Run (Objects ι T)} (hquiet : Quiet rest)
    (hok : conform → ∃ objects', rest = pure objects') :
    GuardSound conform objects (if bad then (do cerr line; return objects) else rest) ↔
      (bad ↔ ¬conform) := by
  have hline : exec (do cerr line; return objects) = (Except.ok objects, [line]) := rfl
  by_cases hbad : bad
  · rw [if_pos hbad]
    constructor
    · intro h
      exact ⟨fun _ => h.complains.mp (by rw [hline]; exact List.cons_ne_nil _ _), fun _ => hbad⟩
    · intro h
      refine ⟨?_, fun _ => by rw [hline], ?_⟩
      · rw [hline]
        exact ⟨fun _ => h.mp hbad, fun _ => List.cons_ne_nil _ _⟩
      · rw [hline]
        exact fun hnil => absurd hnil (List.cons_ne_nil _ _)
  · rw [if_neg hbad]
    have hnil : (exec rest).2 = [] := hquiet []
    constructor
    · intro h
      exact ⟨fun hb => absurd hb hbad, fun hc => absurd hnil (h.complains.mpr hc)⟩
    · intro h
      have hconform : conform := by
        by_contra hc
        exact hbad (h.mpr hc)
      obtain ⟨objects', hrest⟩ := hok hconform
      refine ⟨⟨fun hne => absurd hnil hne, fun hc => absurd hconform hc⟩,
        fun hne => absurd hnil hne, fun _ => ⟨objects', ?_⟩⟩
      rw [hrest]
      rfl

/-- The check of an operation whose result is an object of its own. -/
theorem guardSound_value_iff {conform bad : Prop} [Decidable bad] {objects : Objects ι T}
    {line : String} {m : Matrix T} {value : Run (Matrix T)} (hquiet : Quiet value)
    (hok : conform → ∃ r, value = pure r) :
    GuardSound conform objects
      ((if bad then (do cerr line; return m) else value) >>= fun _ => return objects) ↔
        (bad ↔ ¬conform) := by
  have hpush : ((if bad then (do cerr line; return m) else value) >>= fun _ => return objects) =
      if bad then (do cerr line; return objects) else value >>= fun _ => return objects := by
    split
    · rfl
    · rfl
  rw [hpush]
  refine guardSound_iff (hquiet.bind fun r => quiet_pure _) ?_
  intro hc
  obtain ⟨r, hr⟩ := hok hc
  rw [hr]
  exact ⟨objects, rfl⟩

def SameShape (m1 m2 : Matrix T) : Prop := m1.num_rows = m2.num_rows ∧ m1.num_cols = m2.num_cols

section Guards

variable (objects : Objects ι T) (this m : ι)

theorem operator_add_guard [Add T] :
    GuardSound (SameShape (objects this) (objects m)) objects
      (Objects.operator_add this m objects) ↔
      ((objects this).num_rows = (objects m).num_rows ↔
        (objects this).num_cols = (objects m).num_cols) := by
  unfold Objects.operator_add Matrix.operator_add
  rw [guardSound_value_iff]
  · unfold SameShape
    tauto
  · exact quiet_fill fun row col =>
      (quiet_cell _ row col).bind fun t => (quiet_cell _ row col).bind fun t' => quiet_pure _
  · rintro ⟨hr, hc⟩
    refine fill_ok ?_
    intro row hrow col hcol
    rw [Matrix.cell_of_lt hrow hcol, pure_bind, Matrix.cell_of_lt (by omega) (by omega), pure_bind]
    exact ⟨_, rfl⟩

theorem operator_mul_guard [Zero T] [Add T] [Mul T] :
    GuardSound ((objects this).num_cols = (objects m).num_rows) objects
      (Objects.operator_mul this m objects) := by
  unfold Objects.operator_mul Matrix.operator_mul
  rw [guardSound_value_iff]
  · exact quiet_fill fun row col => quiet_product_entry _ _ row col
  · intro h
    exact fill_ok fun row hrow col hcol => product_entry_ok h hrow hcol

variable [DecidableEq ι]

theorem operator_add_assign_guard [Add T] :
    GuardSound (SameShape (objects this) (objects m)) objects
      (Objects.operator_add_assign this m objects) ↔
      (objects this).num_rows = (objects m).num_rows := by
  unfold Objects.operator_add_assign
  rw [guardSound_iff]
  · unfold SameShape
    tauto
  · exact Objects.quiet_assign_cells _ this m objects
  · rintro ⟨hr, hc⟩
    exact Objects.assign_cells_ok _ hr.symm hc.symm

theorem operator_div_assign_guard [Div T] :
    GuardSound (SameShape (objects this) (objects m)) objects
      (Objects.operator_div_assign this m objects) ↔
      ((objects this).num_rows = (objects m).num_rows ↔
        (objects this).num_cols = (objects m).num_cols) := by
  unfold Objects.operator_div_assign
  rw [guardSound_iff]
  · unfold SameShape
    tauto
  · exact Objects.quiet_assign_cells _ this m objects
  · rintro ⟨hr, hc⟩
    exact Objects.assign_cells_ok _ hr.symm hc.symm

theorem operator_mul_assign_guard [Zero T] [Add T] [Mul T] :
    GuardSound ((objects this).num_cols = (objects m).num_rows) objects
      (Objects.operator_mul_assign this m objects) := by
  unfold Objects.operator_mul_assign
  rw [guardSound_iff]
  · exact (quiet_fill fun row col => quiet_product_entry _ _ row col).bind fun r => quiet_pure _
  · intro h
    obtain ⟨r, hr⟩ := fill_ok fun row hrow col hcol => product_entry_ok h hrow hcol
    rw [hr]
    exact ⟨_, rfl⟩

end Guards

theorem quiet_determinant [Sub T] [Mul T] (m : Matrix T) : Quiet m.determinant := by
  refine (quiet_cell m 0 0).bind fun a => (quiet_cell m 1 1).bind fun d => ?_
  exact (quiet_cell m 0 1).bind fun b => (quiet_cell m 1 0).bind fun c => quiet_pure _

theorem inverse_guard [Zero T] [Neg T] [Sub T] [Mul T] [Div T] (objects : Objects ι T) (this : ι) :
    GuardSound ((objects this).num_rows = 2 ∧ (objects this).num_cols = 2) objects
      (Objects.inverse this objects) ↔
      ((objects this).num_rows = 2 ↔ (objects this).num_cols = 2) := by
  unfold Objects.inverse Matrix.inverse
  rw [guardSound_value_iff]
  · tauto
  · refine (quiet_cell _ 1 1).bind fun d => (quiet_set_cell _ 0 0 d).bind fun r => ?_
    refine (quiet_cell _ 0 1).bind fun b => (quiet_set_cell _ 0 1 _).bind fun r => ?_
    refine (quiet_cell _ 1 0).bind fun c => (quiet_set_cell _ 1 0 _).bind fun r => ?_
    refine (quiet_cell _ 0 0).bind fun a => (quiet_set_cell _ 1 1 a).bind fun r => ?_
    exact (quiet_determinant _).bind fun det => quiet_pure _
  · rintro ⟨hr, hc⟩
    generalize objects this = m at hr hc ⊢
    obtain ⟨rows, cols, data⟩ := m
    cases hr
    cases hc
    exact ⟨_, rfl⟩

/-- **The size checks of `mat.h`.** With `DEBUG` on, for operands of any sizes: the checks of `*`
and `*=` are sound. Those of `+` and `/=` are sound unless the operands differ in exactly one
dimension, that of `+=` if they have as many rows, that of `inverse` unless exactly one dimension
is 2. -/
theorem guards_iff [Zero T] [Neg T] [Add T] [Sub T] [Mul T] [Div T] [DecidableEq ι]
    (objects : Objects ι T) (this m : ι) :
    (GuardSound (SameShape (objects this) (objects m)) objects
      (Objects.operator_add this m objects) ↔
        ((objects this).num_rows = (objects m).num_rows ↔
          (objects this).num_cols = (objects m).num_cols)) ∧
    (GuardSound (SameShape (objects this) (objects m)) objects
      (Objects.operator_add_assign this m objects) ↔
        (objects this).num_rows = (objects m).num_rows) ∧
    (GuardSound (SameShape (objects this) (objects m)) objects
      (Objects.operator_div_assign this m objects) ↔
        ((objects this).num_rows = (objects m).num_rows ↔
          (objects this).num_cols = (objects m).num_cols)) ∧
    GuardSound ((objects this).num_cols = (objects m).num_rows) objects
      (Objects.operator_mul this m objects) ∧
    GuardSound ((objects this).num_cols = (objects m).num_rows) objects
      (Objects.operator_mul_assign this m objects) ∧
    (GuardSound ((objects this).num_rows = 2 ∧ (objects this).num_cols = 2) objects
      (Objects.inverse this objects) ↔
        ((objects this).num_rows = 2 ↔ (objects this).num_cols = 2)) :=
  ⟨operator_add_guard objects this m, operator_add_assign_guard objects this m,
    operator_div_assign_guard objects this m, operator_mul_guard objects this m,
    operator_mul_assign_guard objects this m, inverse_guard objects this⟩

/-- Two rows and one row of the same length, as `false` and `true`. -/
def rows_differ : Objects Bool Int
  | false => ⟨2, 2, fun _ _ => 1⟩
  | true => ⟨1, 2, fun _ _ => 1⟩

/-- `+` and `+=` do not complain and read row 1 of one row. -/
theorem rows_differ_unsound :
    exec (Objects.operator_add false true rows_differ) = (.error (.read 1 0), []) ∧
    exec (Objects.operator_add_assign false true rows_differ) = (.error (.read 1 0), []) ∧
    ¬GuardSound (SameShape (rows_differ false) (rows_differ true)) rows_differ
      (Objects.operator_add false true rows_differ) ∧
    ¬GuardSound (SameShape (rows_differ false) (rows_differ true)) rows_differ
      (Objects.operator_add_assign false true rows_differ) := by
  refine ⟨?_, ?_, ?_, ?_⟩
  · unfold Objects.operator_add
    rw [Matrix.operator_add_fault ⟨rfl, rfl⟩ ⟨rfl, rfl⟩]
    rfl
  · rfl
  · rw [operator_add_guard]
    decide
  · rw [operator_add_assign_guard]
    decide

end MatH
end SoundScreen
