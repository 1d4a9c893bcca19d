import Mathlib
import Optima.Datum.Basic
import Optima.Proofs.Run

/-!
Tables whose keys are texts. A key can be had for every node whose name can be written, and data can
be put under text keys exactly if this holds of all the keys in it (`withTextKeys_needs`).

Nodes are named by integers and texts, and the text of an integer can be the name of another node:
these are the only names that share a key (`NodeId.label_eq_iff`). A table is put under text keys
entry by entry (`TextKeyed.put`), and what comes out has every key once, with the last of the values
that were given under it (`textKeyed_rekeyed`). So nothing is lost as long as no two nodes share a
key, and something is lost otherwise (`rekeyed_eq_map_iff`, `length_rekeyed_lt`).
-/

namespace Optima

/-! ### Keys of nodes -/

namespace NodeId

/-- The key of a node, however long it is. -/
def label : NodeId → String
  | .int i => toString i
  | .text s => s

theorem Writable.key {x : NodeId} (writable : x.Writable) : x.key = .ok x.label := by
  cases x with
  | int i =>
    rw [Writable] at writable
    rw [NodeId.key, written, if_pos writable, label]
  | text s => rfl

theorem key_of_not_writable {x : NodeId} (long : ¬ x.Writable) : x.key = .error .unwritable := by
  cases x with
  | int i =>
    rw [Writable] at long
    rw [NodeId.key, written, if_neg long]
  | text s => exact absurd trivial long

/-- Two names share a key if they are equal, or one is an integer and the other its text. -/
theorem label_eq_iff {x y : NodeId} : x.label = y.label ↔ x = y ∨
    ∃ i : Int, x = .int i ∧ y = .text (toString i) ∨ x = .text (toString i) ∧ y = .int i := by
  cases x with
  | int i =>
    cases y with
    | int j => simp [label, Int.toString_eq_repr, Int.repr_inj]
    | text t => simp [label, eq_comm]
  | text s =>
    cases y with
    | int j => simp [label]
    | text t => simp [label]

end NodeId

namespace Datum

variable {entries written : List (NodeId × Datum)}

/-- The entries of a table put under text keys, one after the other. -/
def rekeyed (entries : List (NodeId × Datum)) : List (NodeId × Datum) :=
  entries.foldl (fun written e => putKey written e.1.label e.2) []

/-- The last of the values that are given under a key. -/
def lastUnder (key : String) (entries : List (NodeId × Datum)) : Option Datum :=
  (entries.reverse.find? fun e => e.1.label = key).map (·.2)

/-- A table that has every key of some entries once, as a text, with the last value under it. -/
structure TextKeyed (entries written : List (NodeId × Datum)) : Prop where
  mem_keys : ∀ k, k ∈ written.map Prod.fst ↔ ∃ e ∈ entries, k = .text e.1.label
  nodup : (written.map Prod.fst).Nodup
  mem_iff : ∀ key d, (.text key, d) ∈ written ↔ lastUnder key entries = some d

/-! ### One entry -/

theorem lastUnder_append (key : String) (entries : List (NodeId × Datum)) (e : NodeId × Datum) :
    lastUnder key (entries ++ [e]) = if e.1.label = key then some e.2 else lastUnder key entries := by
  simp only [lastUnder, List.reverse_append, List.reverse_singleton, List.singleton_append,
    List.find?_cons]
  by_cases same : e.1.label = key <;> simp [same]

/-- The keys of a table into which a value was put. -/
theorem keys_putKey (written : List (NodeId × Datum)) (key : String) (d : Datum) :
    (putKey written key d).map Prod.fst =
      if .text key ∈ written.map Prod.fst then written.map Prod.fst
      else written.map Prod.fst ++ [.text key] := by
  have present : written.any (·.1 = .text key) = true ↔ .text key ∈ written.map Prod.fst := by
    simp [List.any_eq_true]
  by_cases known : .text key ∈ written.map Prod.fst
  · rw [putKey, if_pos (present.mpr known), if_pos known, List.map_map]
    refine List.map_congr_left fun e _ => ?_
    rw [Function.comp_apply]
    split <;> rfl
  · rw [putKey, if_neg (present.not.mpr known), if_neg known, List.map_append]
    rfl

/-- A key that was put has the value that was put; all others are as before. -/
theorem mem_putKey {key key' : String} {d d' : Datum} :
    (.text key', d') ∈ putKey written key d ↔
      if key = key' then d' = d else (.text key', d') ∈ written := by
  unfold putKey
  split
  · rename_i present
    obtain ⟨e, known, here⟩ := List.any_eq_true.mp present
    have here : e.1 = .text key := by simpa using here
    by_cases same : key = key'
    · subst same
      simp only [List.mem_map, if_true]
      constructor
      · rintro ⟨e', _, put⟩
        split at put
        · exact (Prod.mk.inj put).2.symm
        · rename_i other
          exact absurd (congrArg Prod.fst put) other
      · rintro rfl
        exact ⟨e, known, by rw [if_pos here, here]⟩
    · simp only [List.mem_map, if_neg same]
      constructor
      · rintro ⟨e', known', put⟩
        split at put
        · rename_i hit
          have := (Prod.mk.inj put).1
          rw [hit, NodeId.text.injEq] at this
          exact absurd this same
        · exact put ▸ known'
      · intro known'
        refine ⟨_, known', if_neg fun hit => same ?_⟩
        exact (NodeId.text.inj hit).symm
  · rename_i absent
    simp only [List.any_eq_true, decide_eq_true_eq, not_exists, not_and] at absent
    simp only [List.mem_append, List.mem_singleton, Prod.mk.injEq, NodeId.text.injEq]
    by_cases same : key = key'
    · subst same
      have new : (.text key, d') ∉ written := fun known => absent _ known rfl
      simp [new]
    · simp [same, Ne.symm same]

/-- Putting one more entry. -/
theorem TextKeyed.put (keyed : TextKeyed entries written) (e : NodeId × Datum) :
    TextKeyed (entries ++ [e]) (putKey written e.1.label e.2) where
  mem_keys k := by
    have grown : (∃ e' ∈ entries ++ [e], k = .text e'.1.label) ↔
        (∃ e' ∈ entries, k = .text e'.1.label) ∨ k = .text e.1.label := by
      simp only [List.mem_append, List.mem_singleton, or_and_right, exists_or, exists_eq_left]
    rw [keys_putKey, grown, ← keyed.mem_keys k]
    split
    · rename_i known
      exact ⟨.inl, fun either => either.elim id fun same => same ▸ known⟩
    · rw [List.mem_append, List.mem_singleton]
  nodup := by
    rw [keys_putKey]
    split
    · exact keyed.nodup
    · rename_i new
      rw [List.nodup_append_comm]
      exact List.nodup_cons.mpr ⟨new, keyed.nodup⟩
  mem_iff key d := by
    rw [mem_putKey, lastUnder_append]
    split
    · exact ⟨fun same => congrArg some same.symm, fun same => (Option.some.inj same).symm⟩
    · exact keyed.mem_iff key d

/-! ### All entries -/

theorem rekeyed_append (entries : List (NodeId × Datum)) (e : NodeId × Datum) :
    rekeyed (entries ++ [e]) = putKey (rekeyed entries) e.1.label e.2 := by
  rw [rekeyed, List.foldl_append]
  rfl

/-- Putting all entries, one after the other. -/
theorem textKeyed_rekeyed (entries : List (NodeId × Datum)) :
    TextKeyed entries (rekeyed entries) := by
  induction entries using List.reverseRecOn with
  | nil =>
    refine ⟨fun k => ?_, List.nodup_nil, fun key d => ?_⟩
    · simp [rekeyed]
    · simp [rekeyed, lastUnder]
  | append_singleton entries e ih =>
    rw [rekeyed_append]
    exact ih.put e

/-- Entries whose keys differ are all kept. -/
theorem rekeyed_eq_map (distinct : (entries.map (·.1.label)).Nodup) :
    rekeyed entries = entries.map fun e => (.text e.1.label, e.2) := by
  induction entries using List.reverseRecOn with
  | nil => rfl
  | append_singleton entries e ih =>
    rw [List.map_append, List.nodup_append] at distinct
    have before := ih distinct.1
    have new : ¬ (rekeyed entries).any (·.1 = .text e.1.label) = true := by
      rw [before]
      simp only [List.any_map, List.any_eq_true, Function.comp_apply, decide_eq_true_eq,
        NodeId.text.injEq, not_exists, not_and]
      intro e' known same
      exact distinct.2.2 _ (List.mem_map_of_mem known) _ (List.mem_singleton_self _) same
    rw [rekeyed_append, putKey, if_neg new, before, List.map_append]
    rfl

/-- All entries are kept exactly if their keys differ. -/
theorem rekeyed_eq_map_iff : (rekeyed entries = entries.map fun e => (.text e.1.label, e.2)) ↔
    (entries.map (·.1.label)).Nodup := by
  refine ⟨fun all => ?_, rekeyed_eq_map⟩
  have nodup := (textKeyed_rekeyed entries).nodup
  rw [all, List.map_map] at nodup
  refine List.Nodup.of_map NodeId.text ?_
  rwa [List.map_map]

/-- Otherwise there are fewer entries than before. -/
theorem length_rekeyed_lt (shared : ¬ (entries.map (·.1.label)).Nodup) :
    (rekeyed entries).length < entries.length := by
  have keyed := textKeyed_rekeyed entries
  have inside : (rekeyed entries).map Prod.fst ⊆ entries.map fun e => .text e.1.label := by
    intro k known
    obtain ⟨e, mem, rfl⟩ := (keyed.mem_keys k).mp known
    exact List.mem_map_of_mem mem
  have part := List.subperm_of_subset keyed.nodup inside
  have le := part.length_le
  rw [List.length_map, List.length_map] at le
  refine lt_of_le_of_ne le fun same => shared ?_
  have all := part.perm_of_length_le (by simp [same])
  refine List.Nodup.of_map NodeId.text ?_
  rw [List.map_map]
  exact all.nodup_iff.mp keyed.nodup

/-! ### Data with text keys only -/

/-- A computation that succeeds if some keys can be written, and fails for one that cannot. -/
structure Needs {α : Type} (keys : List NodeId) (x : Except Fault α) : Prop where
  ok : (∀ k ∈ keys, k.Writable) → ∃ a, x = .ok a
  unwritable : (∃ k ∈ keys, ¬ k.Writable) → x = .error .unwritable

theorem Needs.nothing {α : Type} (a : α) : Needs [] (.ok a : Except Fault α) :=
  ⟨fun _ => ⟨a, rfl⟩, fun ⟨_, listed, _⟩ => absurd listed List.not_mem_nil⟩

theorem Needs.key (x : NodeId) : Needs [x] x.key where
  ok writable := ⟨_, (writable x (List.mem_singleton_self x)).key⟩
  unwritable long := by
    obtain ⟨k, mem, long⟩ := long
    cases List.mem_singleton.mp mem
    exact NodeId.key_of_not_writable long

theorem Needs.bind {α β : Type} {keys keys' : List NodeId} {x : Except Fault α}
    {f : α → Except Fault β} (first : Needs keys x) (second : ∀ a, Needs keys' (f a)) :
    Needs (keys ++ keys') (x >>= f) where
  ok writable := by
    obtain ⟨a, rfl⟩ := first.ok fun k mem => writable k (List.mem_append_left _ mem)
    exact (second a).ok fun k mem => writable k (List.mem_append_right _ mem)
  unwritable := by
    rintro ⟨k, mem, long⟩
    by_cases early : ∃ k ∈ keys, ¬ k.Writable
    · rw [first.unwritable early]
      rfl
    · push Not at early
      obtain ⟨a, rfl⟩ := first.ok early
      have late := (List.mem_append.mp mem).resolve_left fun mem => long (early k mem)
      exact (second a).unwritable ⟨k, late, long⟩

mutual

/-- The keys of all tables in data. -/
def tableKeys : Datum → List NodeId
  | .list items => keysOfItems items
  | .object fields => keysOfFields fields
  | .table entries => keysOfEntries entries
  | _ => []

/-- The keys in the items of a list. -/
def keysOfItems : List Datum → List NodeId
  | [] => []
  | d :: rest => tableKeys d ++ keysOfItems rest

/-- The keys in the fields of an object. -/
def keysOfFields : List (String × Datum) → List NodeId
  | [] => []
  | (_, d) :: rest => tableKeys d ++ keysOfFields rest

/-- The keys of a table, and those in its values. -/
def keysOfEntries : List (NodeId × Datum) → List NodeId
  | [] => []
  | (node, d) :: rest => [node] ++ (tableKeys d ++ keysOfEntries rest)

end

theorem tableKeys_optional {α : Type} {write : α → Datum} (none : ∀ a, (write a).tableKeys = [])
    (a : Option α) : (optional write a).tableKeys = [] := by
  cases a with
  | none => rfl
  | some a => exact none a

theorem tableKeys_listOf {α : Type} {write : α → Datum} (none : ∀ a, (write a).tableKeys = [])
    (items : List α) : (listOf write items).tableKeys = [] := by
  rw [listOf, tableKeys]
  induction items with
  | nil => rfl
  | cons a items ih => rw [List.map_cons, keysOfItems, none, ih, List.append_nil]

theorem tableKeys_table {α : Type} {write : α → Datum} (none : ∀ a, (write a).tableKeys = [])
    (entries : List (NodeId × α)) :
    (table (entries.map fun (x, a) => (x, write a))).tableKeys = entries.map Prod.fst := by
  rw [tableKeys]
  induction entries with
  | nil => rfl
  | cons e entries ih => rw [List.map_cons, keysOfEntries, none, ih, List.map_cons]; rfl

/-- Data can be put under text keys exactly if all its keys can be written. -/
theorem withTextKeys_needs (d : Datum) : Needs d.tableKeys d.withTextKeys := by
  refine withTextKeys.induct (fun d => Needs d.tableKeys d.withTextKeys)
    (fun entries written => Needs (keysOfEntries entries) (entriesWithTextKeys entries written))
    (fun fields => Needs (keysOfFields fields) (fieldsWithTextKeys fields))
    (fun items => Needs (keysOfItems items) (itemsWithTextKeys items))
    ?list ?object ?table ?leaf ?noItem ?item ?noField ?field ?noEntry ?entry d
  case list =>
    intro items each
    rw [tableKeys, withTextKeys, ← List.append_nil (keysOfItems items)]
    exact each.bind fun _ => .nothing _
  case object =>
    intro fields each
    rw [tableKeys, withTextKeys, ← List.append_nil (keysOfFields fields)]
    exact each.bind fun _ => .nothing _
  case table =>
    intro entries each
    rw [tableKeys, withTextKeys, ← List.append_nil (keysOfEntries entries)]
    exact each.bind fun _ => .nothing _
  case leaf =>
    intro d list object table
    rw [withTextKeys.eq_4 d list object table, tableKeys.eq_4 d list object table]
    exact .nothing d
  case noItem => exact .nothing []
  case item =>
    intro d rest first others
    rw [keysOfItems, itemsWithTextKeys, ← List.append_nil (keysOfItems rest)]
    exact first.bind fun _ => others.bind fun _ => .nothing _
  case noField => exact .nothing []
  case field =>
    intro key d rest first others
    rw [keysOfFields, fieldsWithTextKeys, ← List.append_nil (keysOfFields rest)]
    exact first.bind fun _ => others.bind fun _ => .nothing _
  case noEntry => exact fun written => .nothing written
  case entry =>
    intro node d rest written first others
    rw [keysOfEntries, entriesWithTextKeys]
    exact (Needs.key node).bind fun key => first.bind fun value => others key value

/-- A table of leaves is put under text keys as it is. -/
theorem withTextKeys_table {entries : List (NodeId × Datum)}
    (writable : ∀ e ∈ entries, e.1.Writable) (leaves : ∀ e ∈ entries, e.2.withTextKeys = .ok e.2) :
    (table entries).withTextKeys = .ok (.table (rekeyed entries)) := by
  have put (written : List (NodeId × Datum)) : entriesWithTextKeys entries written =
      .ok (entries.foldl (fun written e => putKey written e.1.label e.2) written) := by
    induction entries generalizing written with
    | nil => rfl
    | cons e entries ih =>
      have others := ih (fun e mem => writable e (.tail _ mem)) fun e mem => leaves e (.tail _ mem)
      obtain ⟨node, d⟩ := e
      rw [entriesWithTextKeys, (writable _ List.mem_cons_self).key, leaves _ List.mem_cons_self]
      exact others _
  rw [withTextKeys, put]
  rfl

/-- The part of data that is found by going down along keys. -/
def part? : List String → Datum → Option Datum
  | [], d => some d
  | key :: path, .object fields => (lookup fields key).bind (part? path)
  | _ :: _, _ => none

theorem lookup_fieldsWithTextKeys {fields fields' : List (String × Datum)}
    (ok : fieldsWithTextKeys fields = .ok fields') {key : String} {d : Datum}
    (here : lookup fields key = some d) :
    ∃ d', d.withTextKeys = .ok d' ∧ lookup fields' key = some d' := by
  induction fields generalizing fields' with
  | nil => cases here
  | cons field fields ih =>
    obtain ⟨name, e⟩ := field
    rw [fieldsWithTextKeys] at ok
    obtain ⟨e', first, ok⟩ := bind_eq_ok_iff.mp ok
    obtain ⟨rest, others, ok⟩ := bind_eq_ok_iff.mp ok
    cases ok
    by_cases same : name = key
    · have found : e = d := by simpa [lookup, same] using here
      exact ⟨e', found ▸ first, by simp [lookup, same]⟩
    · obtain ⟨d', value, found⟩ := ih others (by simpa [lookup, same] using here)
      exact ⟨d', value, by simpa [lookup, same] using found⟩

/-- Going down and putting tables under text keys commute. -/
theorem part?_withTextKeys {path : List String} {d d' e : Datum} (ok : d.withTextKeys = .ok d')
    (here : part? path d = some e) : ∃ e', e.withTextKeys = .ok e' ∧ part? path d' = some e' := by
  induction path generalizing d d' with
  | nil =>
    cases here
    exact ⟨d', ok, rfl⟩
  | cons key path ih =>
    cases d with
    | object fields =>
      rw [withTextKeys] at ok
      obtain ⟨fields', each, ok⟩ := bind_eq_ok_iff.mp ok
      cases ok
      obtain ⟨d, found, below⟩ := Option.bind_eq_some_iff.mp here
      obtain ⟨d', value, found'⟩ := lookup_fieldsWithTextKeys each found
      obtain ⟨e', last, below'⟩ := ih value below
      exact ⟨e', last, Option.bind_eq_some_iff.mpr ⟨d', found', below'⟩⟩
    | _ => cases here

end Datum

end Optima
