/-!
Tables: values for each of finitely many indices. A table is an array whose length is part of its
type, so that an index of type `Fin n` is always in range, and what a table holds after an update is
said by one equation (`get_update`).
-/

namespace Optima

/-- A value for each index below `n`. -/
abbrev Table (n : Nat) (α : Type) := Vector α n

/-- A square table. -/
abbrev Square (n : Nat) (α : Type) := Table n (Table n α)

namespace Table

variable {n : Nat} {α β : Type}

/-- The value at an index. -/
def get (t : Table n α) (i : Fin n) : α := t[i.val]

/-- The table with another value at one index. -/
def update (t : Table n α) (i : Fin n) (a : α) : Table n α := t.set i.val a

/-- The same value everywhere. -/
def fill (n : Nat) (a : α) : Table n α := Vector.replicate n a

/-- The table of a function. -/
def tabulate (f : Fin n → α) : Table n α := Vector.ofFn f

@[simp] theorem get_update (t : Table n α) (i j : Fin n) (a : α) :
    (t.update i a).get j = if i = j then a else t.get j := by
  simp only [get, update, Vector.getElem_set, Fin.ext_iff]

@[simp] theorem get_fill (a : α) (i : Fin n) : (fill n a).get i = a := by
  simp [get, fill]

@[simp] theorem get_tabulate (f : Fin n → α) (i : Fin n) : (tabulate f).get i = f i := by
  simp [get, tabulate]

/-- Tables are equal if their values are. -/
theorem ext {s t : Table n α} (h : ∀ i, s.get i = t.get i) : s = t :=
  Vector.ext fun i hi => h ⟨i, hi⟩

/-- The values in the order of the indices. -/
def values (t : Table n α) : List α := (List.finRange n).map t.get

/-- The index that a number stands for; negative numbers count from the end. -/
def index? (n : Nat) (k : Int) : Option (Fin n) :=
  let fromStart := if k < 0 then k + n else k
  if h : 0 ≤ fromStart ∧ fromStart.toNat < n then some ⟨fromStart.toNat, h.2⟩ else none

/-- An index stands for itself. -/
theorem index?_val (i : Fin n) : index? n i.val = some i := by
  simp [index?, show ¬ (i.val : Int) < 0 by omega]

end Table

end Optima
