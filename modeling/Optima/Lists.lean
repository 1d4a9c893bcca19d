/-!
Lists: the sum of a list of integers, and lists without repetitions. Of the latter it is said which
entry is the first to occur a second time, and that there is none exactly where all entries are
distinct (`repeated?_eq_none_iff`).
-/

namespace Optima

/-! ### Sums -/

/-- The sum of a list. -/
def total (xs : List Int) : Int := xs.foldr (· + ·) 0

@[simp] theorem total_nil : total [] = 0 := rfl

@[simp] theorem total_cons (x : Int) (xs : List Int) : total (x :: xs) = x + total xs := rfl

/-! ### Repetitions -/

variable {α : Type} [DecidableEq α]

/-- The first entry that was seen before, be it among the entries seen at the start. -/
def repeatedAfter? (seen : List α) : List α → Option α
  | [] => none
  | a :: rest => if a ∈ seen then some a else repeatedAfter? (a :: seen) rest

/-- The first entry that occurs a second time. -/
def repeated? (entries : List α) : Option α := repeatedAfter? [] entries

theorem repeatedAfter?_eq_none_iff (seen entries : List α) :
    repeatedAfter? seen entries = none ↔ entries.Nodup ∧ ∀ a ∈ entries, a ∉ seen := by
  induction entries generalizing seen with
  | nil => simp [repeatedAfter?]
  | cons a rest ih =>
    by_cases h : a ∈ seen
    · simp [repeatedAfter?, h]
    · simp only [repeatedAfter?, h, if_false, ih, List.nodup_cons, List.mem_cons]
      grind

/-- Nothing is repeated exactly where all entries are distinct. -/
theorem repeated?_eq_none_iff (entries : List α) : repeated? entries = none ↔ entries.Nodup := by
  simp [repeated?, repeatedAfter?_eq_none_iff]

end Optima
