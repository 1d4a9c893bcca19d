import Mathlib.Tactic.Common
import Optima.Record.Reader

/-!
Readings that succeed, taken apart: a combination of readings succeeds where its parts do, and what
was read is what the parts gave.
-/

namespace Optima

variable {α β : Type} {a : α} {b : β}

namespace Checked

theorem map_eq_ok_iff {f : α → β} {x : Checked α} :
    f <$> x = .ok b ↔ ∃ a, x = .ok a ∧ f a = b := by
  cases x <;> simp [Functor.map, map]

theorem seq_eq_ok_iff {f : Checked (α → β)} {x : Checked α} :
    f <*> x = .ok b ↔ ∃ g a, f = .ok g ∧ x = .ok a ∧ g a = b := by
  cases f <;> cases x <;> simp [Seq.seq, seq]

theorem under_eq_ok_iff {step : Step} {x : Checked α} : x.under step = .ok a ↔ x = .ok a := by
  cases x <;> simp [under]

theorem andThen_eq_ok_iff {x : Checked α} {f : α → Checked β} :
    x.andThen f = .ok b ↔ ∃ a, x = .ok a ∧ f a = .ok b := by
  cases x <;> simp [andThen]

end Checked

namespace Reader

variable {form : Form} {d : Datum}

theorem required_eq_ok {fs : Fields} {name : String} {r : Reader α}
    (ok : fs.required name r = .ok a) : ∃ d, r fs.form d = .ok a := by
  unfold Fields.required at ok
  split at ok
  · exact ⟨_, Checked.under_eq_ok_iff.mp ok⟩
  · cases ok

theorem withDefault_eq_ok {fs : Fields} {name : String} {value : α} {r : Reader α}
    (ok : fs.withDefault name value r = .ok a) : a = value ∨ ∃ d, r fs.form d = .ok a := by
  unfold Fields.withDefault at ok
  split at ok
  · exact .inr ⟨_, Checked.under_eq_ok_iff.mp ok⟩
  · cases ok
    exact .inl rfl

theorem intFrom_eq_ok {least i : Int} (ok : intFrom least form d = .ok i) : least ≤ i := by
  obtain ⟨i', -, bounded⟩ := Checked.andThen_eq_ok_iff.mp ok
  split at bounded
  · cases bounded
    assumption
  · cases bounded

theorem record_eq_ok {name : String} {body : Fields → Checked α}
    (ok : record name body form d = .ok a) : ∃ fields, body ⟨form, fields⟩ = .ok a := by
  unfold record at ok
  split at ok
  · exact ⟨_, ok⟩
  · cases ok

/-- What is read by its tag was read by one of the members. -/
theorem tagged_eq_ok {tag : String} {members : List (String × Reader α)}
    (ok : tagged tag members form d = .ok a) : ∃ member ∈ members, member.2 form d = .ok a := by
  unfold tagged at ok
  split at ok
  · split at ok
    · cases ok
    · rename_i d' _
      cases d' with
      | text s =>
        dsimp only at ok
        split at ok
        · rename_i kind r found
          exact ⟨_, List.mem_of_find?_eq_some found, Checked.under_eq_ok_iff.mp ok⟩
        · cases ok
      | _ => cases ok
  · cases ok

end Reader

end Optima
