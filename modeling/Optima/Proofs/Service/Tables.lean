import Mathlib.Data.List.Nodup
import Optima.Proofs.Datum.Keys
import Optima.Proofs.Service.Dispatch
import Optima.Proofs.Solver.Placement

/-!
The tables of shortest paths that a service gives out. What is found lists every node that edges
lead to from the source once with its distance, and all of them but the source with a predecessor,
also where lengths are rounded (`solveShortestPath_lists`). A solution that is served holds the same
tables under text keys, if all keys can be written. Nothing is missing there unless an integer and
its text are both reached, and then one of the two nodes is (`serve_shortestPath`).
-/

namespace Optima

namespace Solver

open Optima.Graph (ShortestPath.Tree ShortestPath.Adjacency)

/-! ### What is found -/

section Reached

variable {p : Problem.ShortestPath}

/-- The tables have an entry for every node that is reached: one distance, and for all but the
source one predecessor. -/
structure Lists (p : Problem.ShortestPath) (result : Result.ShortestPath) : Prop where
  distances_nodup : (result.distances.map Prod.fst).Nodup
  mem_distances : ∀ x, x ∈ result.distances.map Prod.fst ↔ Connected p x
  predecessors_nodup : (result.predecessors.map Prod.fst).Nodup
  mem_predecessors : ∀ x, x ∈ result.predecessors.map Prod.fst ↔ Connected p x ∧ x ≠ p.source

theorem mem_keys_byNode {nodes : List NodeId} {α β : Type} {t : Table nodes.length (Option α)}
    {write : α → β} {x : NodeId} : x ∈ (byNode nodes t write).map Prod.fst ↔
      ∃ i, nameOf nodes i = x ∧ (t.get i).isSome := by
  constructor
  · intro listed
    obtain ⟨⟨_, b⟩, mem, rfl⟩ := List.mem_map.mp listed
    obtain ⟨i, a, name, value, _⟩ := mem_byNode.mp mem
    exact ⟨i, name, Option.isSome_iff_exists.mpr ⟨a, value⟩⟩
  · rintro ⟨i, name, some⟩
    obtain ⟨a, value⟩ := Option.isSome_iff_exists.mp some
    exact List.mem_map.mpr ⟨_, mem_byNode.mpr ⟨i, a, name, value, rfl⟩, rfl⟩

theorem lists_byNode (sound : Sound p) {t : ShortestPath.Tree p.nodes.length}
    (ok : (search p).outcome = .ok t) (path : Option (List NodeId)) (length : Option Number) :
    Lists p ⟨byNode p.nodes t.distance id, byNode p.nodes t.predecessor (nameOf p.nodes), path,
      length⟩ := by
  have declared : ∀ {x}, Connected p x → x ∈ p.nodes := by
    rintro x (_ | ⟨_, w, joins⟩)
    · exact sound.source
    · exact joins.declared sound
  refine ⟨nodup_byNode sound.distinct, fun x => ?_, nodup_byNode sound.distinct, fun x => ?_⟩
  · rw [mem_keys_byNode]
    constructor
    · rintro ⟨i, rfl, some⟩
      exact (search_spans sound ok i).1.mp some
    · intro connected
      obtain ⟨i, rfl⟩ := exists_nameOf (declared connected)
      exact ⟨i, rfl, (search_spans sound ok i).1.mpr connected⟩
  · rw [mem_keys_byNode]
    constructor
    · rintro ⟨i, rfl, some⟩
      exact (search_spans sound ok i).2.mp some
    · rintro ⟨connected, apart⟩
      obtain ⟨i, rfl⟩ := exists_nameOf (declared connected)
      exact ⟨i, rfl, (search_spans sound ok i).2.mpr ⟨connected, apart⟩⟩

/-- What is found for a sound problem lists the nodes that are reached. -/
theorem solveShortestPath_lists (accepted : p.defect? = none) {found : Finding}
    (ok : (solveShortestPath p).outcome = .ok found) :
    ∃ result, found.result = .shortestPath result ∧ Lists p result := by
  rw [solveShortestPath_eq] at ok
  obtain ⟨t, searched, ok⟩ := Run.outcome_bind_eq_ok_iff.mp ok
  have listed := lists_byNode (sound_of_no_defect accepted) searched
  rw [report] at ok
  cases target : p.target with
  | none =>
    simp only [target, pure_bind] at ok
    obtain ⟨objective, _, ok⟩ := Run.outcome_bind_eq_ok_iff.mp ok
    cases ok
    exact ⟨_, rfl, listed _ _⟩
  | some x =>
    simp only [target] at ok
    obtain ⟨route, _, ok⟩ := Run.outcome_bind_eq_ok_iff.mp ok
    obtain ⟨objective, _, ok⟩ := Run.outcome_bind_eq_ok_iff.mp ok
    cases ok
    exact ⟨_, rfl, listed _ _⟩

end Reached

end Solver

/-! ### What is served -/

/-- An integer and the text of it are both reached, two nodes that share a key. -/
def Clash (reached : NodeId → Prop) : Prop :=
  ∃ i : Int, reached (.int i) ∧ reached (.text (toString i))

/-- What becomes of a table with one entry for every node that is reached when it is put under text
keys: each key has the last of the values given under it. All entries are there exactly if there is
no clash, and fewer otherwise. -/
structure Served (reached : NodeId → Prop) (entries table : List (NodeId × Datum)) : Prop where
  keyed : Datum.TextKeyed entries table
  complete_iff : (table = entries.map fun e => (.text e.1.label, e.2)) ↔ ¬ Clash reached
  fewer : Clash reached → table.length < entries.length

/-- Names that are listed once have different keys exactly if there is no clash. -/
theorem nodup_keys_iff {entries : List (NodeId × Datum)} {reached : NodeId → Prop}
    (distinct : (entries.map Prod.fst).Nodup) (mem : ∀ x, x ∈ entries.map Prod.fst ↔ reached x) :
    (entries.map (·.1.label)).Nodup ↔ ¬ Clash reached := by
  have keys : entries.map (·.1.label) = (entries.map Prod.fst).map NodeId.label := by
    rw [List.map_map]
    rfl
  rw [keys, List.nodup_map_iff_inj_on distinct]
  simp only [mem]
  constructor
  · rintro apart ⟨i, int, text⟩
    cases apart _ int _ text rfl
  · intro free x hx y hy same
    rcases NodeId.label_eq_iff.mp same with same | ⟨i, ⟨rfl, rfl⟩ | ⟨rfl, rfl⟩⟩
    · exact same
    · exact absurd ⟨i, hx, hy⟩ free
    · exact absurd ⟨i, hy, hx⟩ free

/-- The values of a table are written and its keys turned into texts. -/
theorem served_rekeyed {α : Type} {entries : List (NodeId × α)} {reached : NodeId → Prop}
    (distinct : (entries.map Prod.fst).Nodup) (mem : ∀ x, x ∈ entries.map Prod.fst ↔ reached x)
    (write : α → Datum) :
    Served reached (entries.map fun (x, a) => (x, write a))
      (Datum.rekeyed (entries.map fun (x, a) => (x, write a))) := by
  have keys : (entries.map fun (x, a) => (x, write a)).map Prod.fst = entries.map Prod.fst := by
    rw [List.map_map]
    rfl
  have apart := nodup_keys_iff (keys ▸ distinct) (keys ▸ mem)
  exact ⟨Datum.textKeyed_rekeyed _, Datum.rekeyed_eq_map_iff.trans apart, fun clash =>
    Datum.length_rekeyed_lt fun nodup => apart.mp nodup clash⟩

namespace Service

open Solver (Connected Lists)

/-- The capability that is admitted to a problem of shortest paths solves it as such. -/
theorem Admits.solves_shortestPath {settings : Settings} {installed : String → Bool}
    {inquiry : Inquiry} {c : Capability} {p : Problem.ShortestPath}
    (admits : (standard settings installed).Admits inquiry c (.shortestPath p)) :
    c.solver = Solver.shortestPath := by
  obtain ⟨family, -, rfl⟩ := List.mem_map.mp admits.registered
  have own := admits.own_family
  rw [Capabilities.standardEntry_family] at own
  obtain rfl := Family.name_injective own
  rfl

/-- Under whatever limits, what is found for shortest paths is what their solver finds. -/
theorem supervised_shortestPath {s : Service} {c : Capability} {p : Problem.ShortestPath}
    {options : Options} {surroundings : Surroundings} {calls : List External.Call}
    {found : Finding} (solver : c.solver = Solver.shortestPath)
    (came : s.supervised c (.shortestPath p) options surroundings = .ok ⟨calls, .ok found⟩) :
    (Solver.solveShortestPath p).outcome = .ok found := by
  have cut : Run.Interruptible id (Solver.solveShortestPath p >>= fun finding =>
      pure (External.Consultation.mk [] (.ok finding))) :=
    (Solver.solveShortestPath_interruptible p).bind fun _ => .pure _
  have solve : c.solver.solve (.shortestPath p) (s.occasion c options surroundings) =
      (Solver.solveShortestPath p >>= fun finding =>
        pure (External.Consultation.mk [] (.ok finding))).mapError .failure := by
    rw [solver]
    rfl
  rw [supervised, solve, Run.supervise_mapError] at came
  rcases Run.supervise_outcome_or_cut cut (s.limits options)
    (surroundings.signals (s.limits options)) Meter.start with all | ⟨_, _, stopped, _⟩
  · rw [all] at came
    cases outcome : (Solver.solveShortestPath p).outcome with
    | error failure =>
      rw [Run.outcome_bind_of_error outcome] at came
      cases came
    | ok finding =>
      rw [Run.outcome_bind_of_ok outcome] at came
      cases came
      rfl
  · rw [stopped] at came
    cases came

/-- The tables of a result of shortest paths, in a solution. -/
theorem parts_of_shortestPath {solution : Solution} {result : Result.ShortestPath}
    (held : solution.result = some (.shortestPath result)) :
    solution.write.part? ["result", "distances"] = some (.table
      (result.distances.map fun (x, d) => (x, .number d))) ∧
    solution.write.part? ["result", "predecessors"] = some (.table
      (result.predecessors.map fun (x, u) => (x, .ofNodeId u))) := by
  constructor <;> simp [Solution.write, Datum.part?, Datum.lookup, held, Datum.optional,
    Result.write, Result.ShortestPath.write, Problem.kindField]

/-- The keys in such a solution are those of its two tables. -/
theorem tableKeys_of_shortestPath {solution : Solution} {result : Result.ShortestPath}
    (held : solution.result = some (.shortestPath result)) : solution.write.tableKeys =
      result.distances.map Prod.fst ++ result.predecessors.map Prod.fst := by
  have node (x : NodeId) : (Datum.ofNodeId x).tableKeys = [] := by cases x <;> rfl
  have text (s : Option String) : (Datum.optional .text s).tableKeys = [] :=
    Datum.tableKeys_optional (fun _ => rfl) s
  have real (x : Option Binary64) : (Datum.optional .real x).tableKeys = [] :=
    Datum.tableKeys_optional (fun _ => rfl) x
  have number (x : Option Number) : (Datum.optional .number x).tableKeys = [] :=
    Datum.tableKeys_optional (fun _ => rfl) x
  have path (nodes : Option (List NodeId)) :
      (Datum.optional (.listOf .ofNodeId) nodes).tableKeys = [] :=
    Datum.tableKeys_optional (Datum.tableKeys_listOf node) nodes
  have error (e : Option SolveError) : (Datum.optional SolveError.write e).tableKeys = [] := by
    refine Datum.tableKeys_optional (fun e => ?_) e
    simp [SolveError.write, Datum.tableKeys, Datum.keysOfFields, text]
  have stats : solution.stats.write.tableKeys = [] := rfl
  have leaf (x : Number) : (Datum.number x).tableKeys = [] := rfl
  have distances := Datum.tableKeys_table leaf result.distances
  have predecessors := Datum.tableKeys_table node result.predecessors
  have result_keys : result.write.tableKeys =
      result.distances.map Prod.fst ++ result.predecessors.map Prod.fst := by
    rw [Result.ShortestPath.write, Datum.tableKeys]
    simp only [Datum.keysOfFields, distances, predecessors, path, number]
    simp [Problem.kindField, Datum.tableKeys]
  rw [Solution.write, held, Datum.tableKeys]
  simp only [Datum.keysOfFields, text, real, error, stats]
  simp [Datum.optional, Result.write, Datum.tableKeys, result_keys]

/-- Putting a solution with shortest paths under text keys, where all of them can be written. -/
theorem withTextKeys_of_shortestPath {solution : Solution} {result : Result.ShortestPath}
    (held : solution.result = some (.shortestPath result))
    (distances_writable : ∀ x ∈ result.distances.map Prod.fst, x.Writable)
    (predecessors_writable : ∀ x ∈ result.predecessors.map Prod.fst, x.Writable) :
    ∃ document, solution.write.withTextKeys = .ok document ∧
      document.part? ["result", "distances"] = some (.table
        (Datum.rekeyed (result.distances.map fun (x, d) => (x, .number d)))) ∧
      document.part? ["result", "predecessors"] = some (.table
        (Datum.rekeyed (result.predecessors.map fun (x, u) => (x, .ofNodeId u)))) := by
  have writable : ∀ x ∈ solution.write.tableKeys, x.Writable := by
    rw [tableKeys_of_shortestPath held]
    exact fun x listed => (List.mem_append.mp listed).elim (distances_writable x)
      (predecessors_writable x)
  obtain ⟨document, put⟩ := (Datum.withTextKeys_needs solution.write).ok writable
  obtain ⟨distances, predecessors⟩ := parts_of_shortestPath held
  obtain ⟨table, rekeyed, served⟩ := Datum.part?_withTextKeys put distances
  obtain ⟨table', rekeyed', served'⟩ := Datum.part?_withTextKeys put predecessors
  refine ⟨document, put, ?_, ?_⟩
  · rw [Datum.withTextKeys_table] at rekeyed
    · cases rekeyed
      exact served
    · rintro e mem
      obtain ⟨⟨x, d⟩, listed, rfl⟩ := List.mem_map.mp mem
      exact distances_writable x (List.mem_map_of_mem listed)
    · rintro e mem
      obtain ⟨⟨x, d⟩, listed, rfl⟩ := List.mem_map.mp mem
      rfl
  · rw [Datum.withTextKeys_table] at rekeyed'
    · cases rekeyed'
      exact served'
    · rintro e mem
      obtain ⟨⟨x, u⟩, listed, rfl⟩ := List.mem_map.mp mem
      exact predecessors_writable x (List.mem_map_of_mem listed)
    · rintro e mem
      obtain ⟨⟨x, u⟩, listed, rfl⟩ := List.mem_map.mp mem
      cases u <;> rfl

/-- What is served for a solution is the solution with text keys. -/
theorem serve_of_answer {s : Service} {d : Datum} {capability : Option String} {options : Options}
    {surroundings : Surroundings} {solution : Solution}
    (answered : (s.answer (.ofDatum d) capability options surroundings).outcome = .ok solution) :
    s.serve d capability options surroundings =
      solution.write.withTextKeys.mapError Escape.ofFault := by
  rw [serve, show (s.answer _ _ _ _).outcome = _ from answered]
  rfl

/-- The solution of shortest paths, if it is one, holds what is found for them. -/
theorem exists_lists_of_optimal {settings : Settings} {installed : String → Bool}
    {capability : Option String} {options : Options} {surroundings : Surroundings} {d : Datum}
    {p : Problem.ShortestPath} (stated : (Request.ofDatum d).problem = .ok (.shortestPath p))
    {solution : Solution} (answered : ((standard settings installed).answer (.ofDatum d) capability
      options surroundings).outcome = .ok solution) (optimal : solution.status = .optimal) :
    ∃ result, solution.result = some (.shortestPath result) ∧ Lists p result := by
  have responded : ((standard settings installed).respond (.answer (.ofDatum d) capability) options
      surroundings).outcome = .ok solution := answered
  obtain ⟨e, reports⟩ | ⟨c, q, calls, found, admits, came, same⟩ :=
    respond_reports_or_finds responded
  · exact absurd optimal reports.not_optimal
  · have asked := admits.asked
    simp only [Inquiry.route, stated, Except.ok.injEq, Prod.mk.injEq, Subject.problem.injEq] at asked
    obtain ⟨-, rfl⟩ := asked
    obtain ⟨result, shortest, lists⟩ := Solver.solveShortestPath_lists admits.sound
      (supervised_shortestPath admits.solves_shortestPath came)
    refine ⟨result, ?_, lists⟩
    rw [same, ← shortest]
    rfl

/-- A request for shortest paths that is solved to optimality: the result lists every node that is
reached, with its distance and, the source apart, its predecessor. If the names of all of them can
be written, these tables are served under text keys, and they are complete exactly if no integer is
reached together with its text; else nothing is served. -/
theorem serve_shortestPath (settings : Settings) (installed : String → Bool)
    (capability : Option String) (options : Options) (surroundings : Surroundings) {d : Datum}
    {p : Problem.ShortestPath} (stated : (Request.ofDatum d).problem = .ok (.shortestPath p))
    (optimal : ((standard settings installed).answer (.ofDatum d) capability options
      surroundings).HasStatus .optimal) :
    let s := standard settings installed
    ∃ (solution : Solution) (result : Result.ShortestPath),
      (s.answer (.ofDatum d) capability options surroundings).outcome = .ok solution ∧
      solution.result = some (.shortestPath result) ∧
      Lists p result ∧
      ((∀ x, Connected p x → x.Writable) → ∃ document distances predecessors,
        s.serve d capability options surroundings = .ok document ∧
        document.part? ["result", "distances"] = some (.table distances) ∧
        document.part? ["result", "predecessors"] = some (.table predecessors) ∧
        Served (Connected p) (result.distances.map fun (x, d) => (x, .number d)) distances ∧
        Served (fun x => Connected p x ∧ x ≠ p.source)
          (result.predecessors.map fun (x, u) => (x, .ofNodeId u)) predecessors) ∧
      ((∃ x, Connected p x ∧ ¬ x.Writable) →
        s.serve d capability options surroundings = .error (.ofFault .unwritable)) := by
  intro s
  obtain ⟨solution, answered, optimal⟩ := optimal
  obtain ⟨result, held, lists⟩ := exists_lists_of_optimal stated answered optimal
  have given : s.serve d capability options surroundings = _ := serve_of_answer answered
  refine ⟨solution, result, answered, held, lists, fun writable => ?_, fun long => ?_⟩
  · obtain ⟨document, put, distances, predecessors⟩ := withTextKeys_of_shortestPath held
      (fun x listed => writable x ((lists.mem_distances x).mp listed))
      (fun x listed => writable x ((lists.mem_predecessors x).mp listed).1)
    rw [put] at given
    exact ⟨document, _, _, given, distances, predecessors,
      served_rekeyed lists.distances_nodup lists.mem_distances _,
      served_rekeyed lists.predecessors_nodup lists.mem_predecessors _⟩
  · obtain ⟨x, connected, long⟩ := long
    have listed : x ∈ solution.write.tableKeys := by
      rw [tableKeys_of_shortestPath held]
      exact List.mem_append_left _ ((lists.mem_distances x).mpr connected)
    rw [given, (Datum.withTextKeys_needs _).unwritable ⟨x, listed, long⟩]
    rfl

/-- An edge from the node 1 to the node "1". -/
def namesakes : Problem.ShortestPath where
  nodes := [.int 1, .text "1"]
  edges := [⟨.int 1, .text "1", .int 2⟩]
  source := .int 1
  target := none
  directed := true

/-- The request that states this problem. -/
def namesakesRequest : Datum := .object [
  ("kind", .text "shortest_path"), ("nodes", .list [.int 1, .text "1"]),
  ("edges", .list [.object [("tail", .int 1), ("head", .text "1"), ("weight", .int 2)]]),
  ("source", .int 1)]

/-- Both nodes are reached, and their keys clash. -/
theorem serve_shortestPath_namesakes :
    let s := standard Settings.standard fun _ => false
    (Request.ofDatum namesakesRequest).problem = .ok (.shortestPath namesakes) ∧
    (s.answer (.ofDatum namesakesRequest) none .none .calm).HasStatus .optimal ∧
    ∃ result document distances, Lists namesakes result ∧
      s.serve namesakesRequest none .none .calm = .ok document ∧
      document.part? ["result", "distances"] = some (.table distances) ∧
      distances.length < result.distances.length := by
  intro s
  have stated : (Request.ofDatum namesakesRequest).problem = .ok (.shortestPath namesakes) := rfl
  have optimal : (s.answer (.ofDatum namesakesRequest) none .none .calm).HasStatus .optimal := by
    decide +kernel
  have clash : Clash (Connected namesakes) :=
    ⟨1, .refl, .single ⟨.int 2, _, List.mem_singleton_self _, rfl, .inl ⟨rfl, rfl⟩⟩⟩
  have writable : ∀ x, Connected namesakes x → x.Writable := by
    rintro x (_ | ⟨_, w, joins⟩)
    · exact (by decide +kernel : 1 < writtenBound)
    · obtain ⟨e, mem, -, ⟨-, rfl⟩ | ⟨directed, -⟩⟩ := joins
      · cases List.mem_singleton.mp mem
        exact trivial
      · cases directed
  obtain ⟨_, result, -, -, lists, served, -⟩ :=
    serve_shortestPath Settings.standard (fun _ => false) none .none .calm stated optimal
  obtain ⟨document, distances, -, given, part, -, table, -⟩ := served writable
  have fewer := table.fewer clash
  rw [List.length_map] at fewer
  exact ⟨stated, optimal, result, document, distances, lists, given, part, fewer⟩

/-- The distances that are found, if they are. -/
def distancesOf (answer : Answer) : List (NodeId × Number) :=
  match answer.outcome.toOption.bind (·.result) with
  | some (.shortestPath result) => result.distances
  | _ => []

/-- The node 1 has the distance 0 and the node "1" the distance 2, and what is served has one entry
for both of them. -/
theorem serve_loses_node :
    let s := standard Settings.standard fun _ => false
    let answer := s.answer (.ofDatum namesakesRequest) none .none .calm
    answer.HasStatus .optimal ∧
    distancesOf answer = [(.int 1, .int 0), (.text "1", .int 2)] ∧
    ∃ document, s.serve namesakesRequest none .none .calm = .ok document ∧
      document.part? ["result", "distances"] =
        some (.table [(.text "1", .number (.int 2))]) := by
  intro s answer
  have optimal : answer.HasStatus .optimal := by decide +kernel
  have found : distancesOf answer = [(.int 1, .int 0), (.text "1", .int 2)] := by decide +kernel
  have given : (s.serve namesakesRequest none .none .calm).toOption.isSome := by decide +kernel
  refine ⟨optimal, found, ?_⟩
  obtain ⟨solution, answered, -⟩ := optimal
  have served : s.serve namesakesRequest none .none .calm = _ := serve_of_answer answered
  rw [served] at given ⊢
  cases put : solution.write.withTextKeys with
  | error fault =>
    rw [put] at given
    cases given
  | ok document =>
    refine ⟨document, rfl, ?_⟩
    unfold distancesOf at found
    rw [answered] at found
    split at found
    · rename_i result held
      obtain ⟨table, rekeyed, part⟩ := Datum.part?_withTextKeys put (parts_of_shortestPath held).1
      rw [found, Datum.withTextKeys_table] at rekeyed
      · cases rekeyed
        exact part
      · have short : (1 : Int).natAbs < writtenBound := by decide +kernel
        rintro e mem
        obtain rfl | rfl : e = (.int 1, .number (.int 0)) ∨ e = (.text "1", .number (.int 2)) := by
          simpa using mem
        · exact short
        · exact trivial
      · rintro e mem
        obtain rfl | rfl : e = (.int 1, .number (.int 0)) ∨ e = (.text "1", .number (.int 2)) := by
          simpa using mem
        all_goals rfl
    · cases found

end Service

end Optima
