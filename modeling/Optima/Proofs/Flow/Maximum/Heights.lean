import Mathlib.Data.Finset.Card
import Mathlib.Order.Interval.Finset.Nat
import Optima.Flow.Maximum
import Optima.Proofs.Flow.Residual
import Optima.Proofs.Graph.Levels

/-!
Heights and residual paths. Heights are valid when no arc that can still carry something descends
by more than one. Such a path then takes every height between its ends, so it descends by less than
the number of nodes (`Valid.descent_lt`); in particular there is no way from the source, at height
`n`, to the sink, at height zero.

The exact heights are valid if the source is cut off from the sink (`valid_exactHeights`), and they
are the greatest of all valid heights (`le_exactHeights`), so computing them afresh never lowers a
node.
-/

namespace Optima.Flow

open Optima.Graph

namespace Maximum

variable {n m : Nat}

/-! ### Valid heights -/

/-- No arc that can still carry something descends by more than one. -/
def Valid (net : Network n m) (height : Table n Nat) : Prop :=
  ∀ a, 0 < net.residual a → height.get (net.tail a) ≤ height.get (net.head a) + 1

variable {net : Network n m} {height : Table n Nat}

/-- A residual path downhill does not skip a height. -/
theorem Valid.exists_height (valid : Valid net height) {u v : Fin n} (path : net.Reaches u v)
    {k : Nat} (low : height.get v ≤ k) (high : k ≤ height.get u) : ∃ w, height.get w = k := by
  induction path using Relation.ReflTransGen.head_induction_on with
  | refl => exact ⟨v, Nat.le_antisymm low high⟩
  | head step _ ih =>
    obtain ⟨a, room, rfl, rfl⟩ := step
    by_cases above : k ≤ height.get (net.head a)
    · exact ih above
    · have := valid a room
      exact ⟨net.tail a, by omega⟩

/-- A residual path descends by less than the number of nodes. -/
theorem Valid.descent_lt (valid : Valid net height) {u v : Fin n} (path : net.Reaches u v) :
    height.get u < height.get v + n := by
  by_contra steep
  have cover : Finset.Icc (height.get v) (height.get v + n) ⊆ Finset.univ.image height.get := by
    intro k mem
    obtain ⟨low, high⟩ := Finset.mem_Icc.mp mem
    obtain ⟨w, at_k⟩ := valid.exists_height path low (by omega)
    exact Finset.mem_image.mpr ⟨w, Finset.mem_univ w, at_k⟩
  have count := (Finset.card_le_card cover).trans Finset.card_image_le
  simp only [Nat.card_Icc, Finset.card_univ, Fintype.card_fin] at count
  omega

/-! ### Exact heights -/

/-- The nodes from which an arc that can carry something leads to a node, as far as allowed. -/
def behind (setting : Setting n m) (net : Network n m) (allowed : Fin n → Bool) (v : Fin n) :
    List (Fin n) :=
  ((setting.leaving.get v).filter fun a =>
    0 < net.residual a.reverse && allowed (net.head a)).map net.head

theorem mem_behind {setting : Setting n m} (arcs : setting.leaving = net.leaving)
    {allowed : Fin n → Bool} {u v : Fin n} :
    u ∈ behind setting net allowed v ↔ net.Leads u v ∧ allowed u = true := by
  simp only [behind, arcs, List.mem_map, List.mem_filter, Network.mem_leaving, Bool.and_eq_true,
    decide_eq_true_eq]
  constructor
  · rintro ⟨a, ⟨tail, room, free⟩, rfl⟩
    exact ⟨⟨a.reverse, room, by simp, by simpa using tail⟩, free⟩
  · rintro ⟨⟨a, room, rfl, rfl⟩, free⟩
    exact ⟨a.reverse, ⟨by simp, by simpa using room, by simpa using free⟩, by simp⟩

/-- Distances to the sink, on ways that avoid the source. -/
def sinkLevels (setting : Setting n m) (net : Network n m) : Table n (Option Nat) :=
  levels (behind setting net (· ≠ setting.source)) setting.sink

/-- Distances to the source, among nodes from which the sink is not reached. -/
def sourceLevels (setting : Setting n m) (net : Network n m) : Table n (Option Nat) :=
  levels (behind setting net fun v => ((sinkLevels setting net).get v).isNone) setting.source

theorem get_exactHeights {setting : Setting n m} (apart : setting.source ≠ setting.sink)
    (v : Fin n) :
    (exactHeights setting net).get v =
      match (sinkLevels setting net).get v, (sourceLevels setting net).get v with
      | some d, _ => d
      | none, some d => n + d
      | none, none => 2 * n := by
  simp only [exactHeights, Table.get_tabulate, if_neg apart]
  rfl

section Exact

variable {setting : Setting n m} (arcs : setting.leaving = net.leaving)
  (apart : setting.source ≠ setting.sink)

include apart in
/-- The source has no distance to the sink of its own. -/
theorem sinkLevels_source : (sinkLevels setting net).get setting.source = none := by
  have done := levels_levelled (behind setting net (· ≠ setting.source)) setting.sink
  cases known : (sinkLevels setting net).get setting.source with
  | none => rfl
  | some d =>
    cases d with
    | zero => exact absurd (done.eq_root known) apart
    | succ d =>
      obtain ⟨u, _, step⟩ := done.pred known
      obtain ⟨a, mem, head⟩ := List.mem_map.mp step
      have free := (List.mem_filter.mp mem).2
      simp [head] at free

include apart in
theorem exactHeights_sink : (exactHeights setting net).get setting.sink = 0 := by
  have done := levels_levelled (behind setting net (· ≠ setting.source)) setting.sink
  have root : (sinkLevels setting net).get setting.sink = some 0 := done.root_label
  rw [get_exactHeights apart, root]

include apart in
theorem exactHeights_source : (exactHeights setting net).get setting.source = n := by
  have done := levels_levelled (behind setting net fun v =>
    ((sinkLevels setting net).get v).isNone) setting.source
  have root : (sourceLevels setting net).get setting.source = some 0 := done.root_label
  rw [get_exactHeights apart, sinkLevels_source apart, root]
  rfl

include apart in
theorem exactHeights_le (v : Fin n) : (exactHeights setting net).get v ≤ 2 * n := by
  have toSink := levels_levelled (behind setting net (· ≠ setting.source)) setting.sink
  have toSource := levels_levelled (behind setting net fun v =>
    ((sinkLevels setting net).get v).isNone) setting.source
  rw [get_exactHeights apart]
  split
  · next d known =>
    have := toSink.lt known
    omega
  · next d _ known =>
    have := toSource.lt known
    show n + d ≤ 2 * n
    omega
  · exact le_rfl

include arcs in
/-- What has a distance to the sink reaches the sink. -/
theorem reaches_sink {v : Fin n} {d : Nat} (known : (sinkLevels setting net).get v = some d) :
    net.Reaches v setting.sink := by
  have done := levels_levelled (behind setting net (· ≠ setting.source)) setting.sink
  induction d generalizing v with
  | zero =>
    rw [done.eq_root known]
    exact .refl
  | succ d ih =>
    obtain ⟨u, before, step⟩ := done.pred known
    exact (ih before).head ((mem_behind arcs).mp step).1

include arcs apart in
/-- Exact heights are valid if the source is cut off from the sink. -/
theorem valid_exactHeights (cut : ¬ net.Reaches setting.source setting.sink) :
    Valid net (exactHeights setting net) := by
  have toSink := levels_levelled (behind setting net (· ≠ setting.source)) setting.sink
  have toSource := levels_levelled (behind setting net fun v =>
    ((sinkLevels setting net).get v).isNone) setting.source
  intro a room
  have leads : net.Leads (net.tail a) (net.head a) := ⟨a, room, rfl, rfl⟩
  have high : (exactHeights setting net).get (net.tail a) ≤ 2 * n := exactHeights_le apart _
  rw [get_exactHeights apart (net.head a)]
  cases sink : (sinkLevels setting net).get (net.head a) with
  | some d =>
    have free : net.tail a ≠ setting.source := by
      intro same
      exact cut ((reaches_sink arcs sink).head (same ▸ leads))
    obtain ⟨d', near, found⟩ :=
      toSink.step sink ((mem_behind arcs).mpr ⟨leads, by simpa using free⟩)
    have found : (sinkLevels setting net).get (net.tail a) = some d' := found
    rw [get_exactHeights apart, found]
    exact near
  | none =>
    cases source : (sourceLevels setting net).get (net.head a) with
    | none =>
      simp only
      omega
    | some d =>
      simp only
      rw [get_exactHeights apart]
      cases tail : (sinkLevels setting net).get (net.tail a) with
      | some e =>
        have := toSink.lt tail
        simp only
        omega
      | none =>
        obtain ⟨d', near, found⟩ := toSource.step source
          ((mem_behind arcs).mpr ⟨leads, by simp [tail]⟩)
        have found : (sourceLevels setting net).get (net.tail a) = some d' := found
        rw [found]
        simp only
        omega

include arcs apart in
/-- No valid heights are above the exact ones. -/
theorem le_exactHeights (valid : Valid net height) (sink : height.get setting.sink = 0)
    (source : height.get setting.source = n) (bounded : ∀ v, height.get v ≤ 2 * n) (v : Fin n) :
    height.get v ≤ (exactHeights setting net).get v := by
  have toSink := levels_levelled (behind setting net (· ≠ setting.source)) setting.sink
  have toSource := levels_levelled (behind setting net fun v =>
    ((sinkLevels setting net).get v).isNone) setting.source
  have leads_le : ∀ {u w}, net.Leads u w → height.get u ≤ height.get w + 1 := by
    rintro u w ⟨a, room, rfl, rfl⟩
    exact valid a room
  have near_sink : ∀ {d w}, (sinkLevels setting net).get w = some d → height.get w ≤ d := by
    intro d
    induction d with
    | zero =>
      intro w known
      rw [toSink.eq_root known, sink]
    | succ d ih =>
      intro w known
      obtain ⟨u, before, step⟩ := toSink.pred known
      have := ih before
      have := leads_le ((mem_behind arcs).mp step).1
      omega
  have near_source : ∀ {d w}, (sourceLevels setting net).get w = some d →
      height.get w ≤ n + d := by
    intro d
    induction d with
    | zero =>
      intro w known
      rw [toSource.eq_root known, source]
      exact le_rfl
    | succ d ih =>
      intro w known
      obtain ⟨u, before, step⟩ := toSource.pred known
      have := ih before
      have := leads_le ((mem_behind arcs).mp step).1
      omega
  rw [get_exactHeights apart]
  split
  · exact near_sink ‹_›
  · exact near_source ‹_›
  · exact bounded v

end Exact

end Maximum

end Optima.Flow
