import Mathlib.Tactic.Common
import Optima.Record.Reader

/-!
What reading makes of the form in which data arrived: it matters for the wording of issues only
(`Reader.Uniform`). A uniform reader accepts the same data in either form, with the same results,
and finds the same issues in the same places otherwise. Simple readers are uniform, and so are
readers that are built of uniform ones; a record is uniform if each of its fields is.
-/

namespace Optima

variable {α β : Type}

/-! ### Rewording -/

/-- The cause as it is worded for data in the given form. -/
def Cause.inForm (form : Form) : Cause → Cause
  | notList _ => notList form
  | notTable _ => notTable form
  | notRecord _ name => notRecord form name
  | untaggable _ => untaggable form
  | cause => cause

/-- The issue as it is worded for data in the given form. -/
def Issue.inForm (form : Form) (issue : Issue) : Issue :=
  { issue with cause := issue.cause.inForm form }

namespace Checked

variable (form : Form)

/-- The result with its issues as they are worded for data in the given form. -/
def inForm : Checked α → Checked α
  | ok a => ok a
  | failed first rest => failed (first.inForm form) (rest.map (Issue.inForm form))

@[simp] theorem inForm_ok (a : α) : (ok a).inForm form = ok a := rfl

theorem issues_inForm (x : Checked α) :
    (x.inForm form).issues = x.issues.map (Issue.inForm form) := by
  cases x <;> rfl

theorem inForm_map (f : α → β) (x : Checked α) : (f <$> x).inForm form = f <$> x.inForm form := by
  cases x <;> rfl

theorem inForm_seq (f : Checked (α → β)) (x : Checked α) :
    (f <*> x).inForm form = f.inForm form <*> x.inForm form := by
  cases f with
  | ok g => cases x <;> rfl
  | failed first rest =>
    change failed (first.inForm form) ((rest ++ x.issues).map (Issue.inForm form)) =
      failed (first.inForm form) (rest.map (Issue.inForm form) ++ (x.inForm form).issues)
    rw [issues_inForm, List.map_append]

theorem inForm_under (step : Step) (x : Checked α) :
    (x.under step).inForm form = (x.inForm form).under step := by
  cases x with
  | ok a => rfl
  | failed first rest =>
    simp only [under, inForm, List.map_map]
    rfl

end Checked

/-! ### Uniform readers -/

namespace Reader

/-- The form of the data matters for the wording of issues only. -/
def Uniform (r : Reader α) : Prop := ∀ form form' d, r form d = (r form' d).inForm form

/-- The form of the fields matters for the wording of issues only. -/
def Fields.Uniform (body : Fields → Checked α) : Prop :=
  ∀ form form' fields, body ⟨form, fields⟩ = (body ⟨form', fields⟩).inForm form

section Simple

variable (form : Form)

theorem inForm_wholeOf (x : Binary64) : (wholeOf x).inForm form = wholeOf x := by
  unfold wholeOf
  split
  · rfl
  · split
    · rfl
    · split <;> rfl

theorem inForm_boolOfInt (i : Int) : (boolOfInt i).inForm form = boolOfInt i := by
  unfold boolOfInt
  split
  · rfl
  · split
    · rfl
    · split <;> rfl

end Simple

theorem uniform_int : int.Uniform := by
  intro form form' d
  unfold int
  cases d with
  | number n =>
    cases n with
    | int i => rfl
    | real x => exact (inForm_wholeOf form x).symm
  | text s => dsimp only; split <;> rfl
  | _ => rfl

theorem uniform_real : real.Uniform := by
  intro form form' d
  unfold real
  cases d with
  | number n => dsimp only; split <;> rfl
  | text s => dsimp only; split <;> rfl
  | _ => rfl

theorem uniform_text : text.Uniform := by
  intro form form' d
  cases d <;> rfl

theorem uniform_bool : bool.Uniform := by
  intro form form' d
  unfold bool
  cases d with
  | number n =>
    cases n with
    | int i => exact (inForm_boolOfInt form i).symm
    | real x =>
      dsimp only
      split
      · exact (inForm_boolOfInt form _).symm
      · rfl
  | text s =>
    dsimp only
    split
    · rfl
    · split <;> rfl
  | _ => rfl

theorem uniform_among [Inhabited α] (words : List (String × α)) : (among words).Uniform := by
  intro form form' d
  unfold among
  dsimp only
  split <;> rfl

theorem uniform_any : any.Uniform := fun _ _ _ => rfl

variable {r r' : Reader α}

theorem Uniform.map (f : α → β) (uniform : r.Uniform) :
    Uniform fun form d => f <$> r form d := by
  intro form form' d
  dsimp only
  rw [uniform form form' d, Checked.inForm_map]

theorem Uniform.either (name name' : String) (uniform : r.Uniform) (uniform' : r'.Uniform) :
    (either (name, r) (name', r')).Uniform := by
  intro form form' d
  unfold Reader.either
  dsimp only
  rw [uniform form form' d, uniform' form form' d]
  cases r form' d with
  | ok a => rfl
  | failed i is =>
    cases r' form' d with
    | ok a => rfl
    | failed j js =>
      simp only [Checked.inForm, List.map_append, List.map_cons, List.map_map]
      rfl

theorem uniform_number : number.Uniform := by
  intro form form' d
  have both := (uniform_int.map Number.int).either "int" "float" (uniform_real.map Number.real)
    form form' d
  cases d with
  | number n => rfl
  | _ => exact both

theorem uniform_nodeId : nodeId.Uniform := by
  intro form form' d
  have both := (uniform_int.map NodeId.int).either "int" "str" (uniform_text.map NodeId.text)
    form form' d
  cases d with
  | text s => rfl
  | _ => exact both

/-! ### Structure -/

theorem Uniform.optional (uniform : r.Uniform) : (optional r).Uniform := by
  intro form form' d
  have here := uniform.map some form form' d
  cases d with
  | null => rfl
  | _ => exact here

theorem Uniform.items (uniform : r.Uniform) (form form' : Form) (index : Nat) (ds : List Datum) :
    items r form index ds = (items r form' index ds).inForm form := by
  induction ds generalizing index with
  | nil => rfl
  | cons d ds ih =>
    rw [Reader.items, Reader.items, uniform form form' d, ih, Checked.inForm_seq,
      Checked.inForm_map, Checked.inForm_under]

theorem Uniform.listOf (uniform : r.Uniform) : (listOf r).Uniform := by
  intro form form' d
  cases d with
  | list ds => exact uniform.items form form' 0 ds
  | _ => rfl

theorem Uniform.entries (uniform : r.Uniform) (form form' : Form) (fields : List (String × Datum)) :
    entries r form fields = (entries r form' fields).inForm form := by
  induction fields with
  | nil => rfl
  | cons field fields ih =>
    rw [Reader.entries, Reader.entries, uniform form form' field.2, ih, Checked.inForm_seq,
      Checked.inForm_map, Checked.inForm_map, Checked.inForm_under]

theorem Uniform.tableOf (uniform : r.Uniform) : (tableOf r).Uniform := by
  intro form form' d
  cases d with
  | object fields => exact uniform.entries form form' fields
  | _ => rfl

/-! ### Fields and records -/

namespace Fields

theorem Uniform.required (name : String) (uniform : r.Uniform) :
    Uniform fun fs => fs.required name r := by
  intro form form' fields
  unfold Fields.required
  dsimp only
  split
  · rw [uniform form form' _, Checked.inForm_under]
  · rfl

theorem Uniform.withDefault (name : String) (value : α) (uniform : r.Uniform) :
    Uniform fun fs => fs.withDefault name value r := by
  intro form form' fields
  unfold Fields.withDefault
  dsimp only
  split
  · rw [uniform form form' _, Checked.inForm_under]
  · rfl

theorem Uniform.maybe (name : String) (uniform : r.Uniform) : Uniform fun fs => fs.maybe name r :=
  Uniform.withDefault name none uniform.optional

theorem uniform_word (name value : String) : Uniform fun fs => fs.word name value :=
  Uniform.withDefault name () (uniform_among _)

theorem Uniform.map {body : Fields → Checked α} (f : α → β) (uniform : Uniform body) :
    Uniform fun fs => f <$> body fs := by
  intro form form' fields
  dsimp only
  rw [uniform form form' fields, Checked.inForm_map]

/-- One more field keeps what is made of the fields uniform. -/
theorem Uniform.seq {body : Fields → Checked (α → β)} {field : Fields → Checked α}
    (uniform : Uniform body) (next : Uniform field) : Uniform fun fs => body fs <*> field fs := by
  intro form form' fields
  dsimp only
  rw [uniform form form' fields, next form form' fields, Checked.inForm_seq]

end Fields

theorem uniform_record (name : String) {body : Fields → Checked α} (uniform : Fields.Uniform body) :
    (record name body).Uniform := by
  intro form form' d
  cases d with
  | object fields => exact uniform form form' fields
  | _ => rfl

theorem uniform_tagged (tag : String) {members : List (String × Reader α)}
    (uniform : ∀ member ∈ members, member.2.Uniform) : (tagged tag members).Uniform := by
  intro form form' d
  unfold tagged
  cases d with
  | object fields =>
    dsimp only
    split
    · rfl
    · split
      · rename_i kind r found
        split at found
        · have member : r.Uniform := uniform _ (List.mem_of_find?_eq_some found)
          rw [member form form' _, Checked.inForm_under]
        · cases found
      · rfl
  | _ => rfl

end Reader

end Optima
