import Mathlib.Data.List.Nodup
import Taxonomy.Search.Ranking

/-!
# The best hits

A ranking picks places in the list of entries: those of the best scores, of equal ones the first, in
this order (`Hit.Picks`). Sorting keeps the order of equal scores, so the hits that a limit cuts off
are those that come after all others, and what does not fit has no influence (`search_isStableTop`).
-/

namespace Taxonomy

/-- Elements that are before each other keep their order when a list is sorted. -/
theorem filter_mergeSort {α : Type} {le : α → α → Bool} {p : α → Bool}
    (trans : ∀ a b c, le a b → le b c → le a c) (total : ∀ a b, le a b || le b a)
    (equal : ∀ a b, p a → p b → le a b) (l : List α) :
    (l.mergeSort le).filter p = l.filter p := by
  have sorted : (l.filter p).Pairwise fun a b => le a b := by
    apply List.pairwise_of_forall_mem_list
    intro a first b second
    exact equal a b (List.mem_filter.mp first).2 (List.mem_filter.mp second).2
  have kept := (List.sublist_mergeSort trans total sorted List.filter_sublist).filter p
  rw [List.filter_filter] at kept
  simp only [Bool.and_self] at kept
  have length := ((List.mergeSort_perm l le).filter p).length_eq
  exact (kept.eq_of_length length.symm).symm

namespace Hit

/-- What a scorer makes of the names of the entries, one after the other. -/
def scores {σ : Type} (scorer : σ → String → Option Int × σ) :
    σ → List SearchEntry → List (Option Int)
  | _, [] => []
  | state, e :: es => (scorer state e.name).1 :: scores scorer (scorer state e.name).2 es

/-- The entries that have a score. -/
def matching (entries : List SearchEntry) (scores : List (Option Int)) : List SearchEntry :=
  ((entries.zip scores).filter fun scored => scored.2.isSome).map Prod.fst

/-- The hit at a place of the entries, if there is an entry and it has a score. -/
def at? (entries : List SearchEntry) (scores : List (Option Int)) (place : Nat) : Option Hit := do
  let e ← entries[place]?
  let score ← scores[place]?.join
  return ⟨e.id, score⟩

/-- Both places have hits, the first of them a better one, or an equal one and stands earlier. -/
def Ahead (entries : List SearchEntry) (scores : List (Option Int)) (i j : Nat) : Prop :=
  ∃ h k, at? entries scores i = some h ∧ at? entries scores j = some k ∧
    (k.score < h.score ∨ k.score = h.score ∧ i < j)

/-- The hits are those at the given places: as many as there are up to the limit, each ahead of
those after it and of all that are left out. -/
structure Picks (entries : List SearchEntry) (scores : List (Option Int)) (limit : Nat)
    (hits : List Hit) (places : List Nat) : Prop where
  shown : places.map (at? entries scores) = hits.map some
  distinct : places.Nodup
  ordered : places.Pairwise (Ahead entries scores)
  left : ∀ i ∈ places, ∀ j, j ∉ places → (at? entries scores j).isSome →
    Ahead entries scores i j
  length : hits.length = min limit (scores.countP Option.isSome)

/-! ## Hits and their places -/

variable {σ : Type} {scorer : σ → String → Option Int × σ} {entries : List SearchEntry}
  {scored : List (Option Int)}

/-- The hits of scored entries, each with its place, in the order of the places. -/
def placed (entries : List SearchEntry) (scores : List (Option Int)) : List (Hit × Nat) :=
  (List.range entries.length).filterMap fun i => (at? entries scores i).map fun h => (h, i)

theorem mem_placed {h : Hit} {i : Nat} :
    (h, i) ∈ placed entries scored ↔ at? entries scored i = some h := by
  simp only [placed, List.mem_filterMap, List.mem_range, Option.map_eq_some_iff, Prod.mk.injEq]
  constructor
  · rintro ⟨j, -, k, found, rfl, rfl⟩
    exact found
  · intro found
    refine ⟨i, ?_, h, found, rfl, rfl⟩
    by_contra outside
    simp [at?, List.getElem?_eq_none (Nat.not_lt.mp outside)] at found

theorem pairwise_placed (entries : List SearchEntry) (scored : List (Option Int)) :
    (placed entries scored).Pairwise fun a b => a.2 < b.2 := by
  rw [placed, List.pairwise_filterMap]
  refine List.pairwise_lt_range.imp ?_
  intro i j less a first b second
  obtain ⟨_, _, rfl⟩ := Option.map_eq_some_iff.mp first
  obtain ⟨_, _, rfl⟩ := Option.map_eq_some_iff.mp second
  exact less

theorem placed_cons (e : SearchEntry) (es : List SearchEntry) (score : Option Int)
    (rest : List (Option Int)) :
    placed (e :: es) (score :: rest) =
      (score.map fun x => (⟨e.id, x⟩, 0)).toList ++
        (placed es rest).map fun a => (a.1, a.2 + 1) := by
  have later : ∀ i, at? (e :: es) (score :: rest) (i + 1) = at? es rest i := fun _ => rfl
  rw [placed, List.length_cons, List.range_succ_eq_map, List.filterMap_cons, List.filterMap_map,
    placed, List.map_filterMap]
  simp only [Function.comp_def, Nat.succ_eq_add_one, later, Option.map_map]
  cases score <;> rfl

theorem length_scores (state : σ) (entries : List SearchEntry) :
    (scores scorer state entries).length = entries.length := by
  induction entries generalizing state with
  | nil => rfl
  | cons e es ih => rw [scores, List.length_cons, List.length_cons, ih]

theorem length_placed (same : scored.length = entries.length) :
    (placed entries scored).length = scored.countP Option.isSome := by
  induction entries generalizing scored with
  | nil =>
    rw [List.length_eq_zero_iff.mp same]
    rfl
  | cons e es ih =>
    obtain ⟨score, rest, rfl⟩ := List.exists_cons_of_length_eq_add_one same
    rw [placed_cons, List.length_append, List.length_map, ih (Nat.succ.inj same), List.countP_cons]
    cases score <;> simp [Nat.add_comm]

/-- The hits that are collected are those at the places of scored entries. -/
theorem collect_eq (state : σ) (entries : List SearchEntry) :
    collect scorer state entries =
      (placed entries (scores scorer state entries)).map Prod.fst := by
  induction entries generalizing state with
  | nil => rfl
  | cons e es ih =>
    rw [scores, placed_cons, List.map_append, List.map_map, collect]
    cases found : scorer state e.name with
    | mk score later => cases score <;> simp [ih, Function.comp_def]

/-! ## Sorting -/

/-- The order of a ranking, on hits with their places. -/
def better (a b : Hit × Nat) : Bool :=
  decide (b.1.score ≤ a.1.score)

theorem better_trans (a b c : Hit × Nat) (first : better a b) (second : better b c) :
    better a c := by
  simp only [better, decide_eq_true_eq] at *
  exact Int.le_trans second first

theorem better_total (a b : Hit × Nat) : better a b || better b a := by
  simp only [better, Bool.or_eq_true, decide_eq_true_eq]
  exact Int.le_total _ _

theorem best_eq (limit : Nat) (l : List (Hit × Nat)) :
    best limit (l.map Prod.fst) = ((l.mergeSort better).take limit).map Prod.fst := by
  rw [best, List.map_take, List.map_mergeSort]
  intro a _ b _
  rfl

/-- Of two places in the sorted list the first is ahead: equal scores keep their order. -/
theorem pairwise_sorted (entries : List SearchEntry) (scored : List (Option Int)) :
    ((placed entries scored).mergeSort better).Pairwise fun a b =>
      Ahead entries scored a.2 b.2 := by
  have sorted := List.pairwise_mergeSort better_trans better_total (placed entries scored)
  rw [List.pairwise_iff_forall_sublist]
  intro a b both
  have first := mem_placed.mp (List.mem_mergeSort.mp (both.subset List.mem_cons_self))
  have second := mem_placed.mp (List.mem_mergeSort.mp (both.subset (by simp : b ∈ [a, b])))
  have le := List.pairwise_iff_forall_sublist.mp sorted both
  refine ⟨a.1, b.1, first, second, ?_⟩
  rcases Int.lt_or_eq_of_le (of_decide_eq_true le) with less | same
  · exact .inl less
  · refine .inr ⟨same, ?_⟩
    -- the two are among the elements with this score, which sorting leaves in order
    have kept := filter_mergeSort (p := fun c => c.1.score = a.1.score) better_trans better_total
      (by simp only [better, decide_eq_true_eq]; omega) (placed entries scored)
    have pair := both.filter fun c => c.1.score = a.1.score
    rw [kept] at pair
    simp only [same, List.filter_cons, decide_true, if_true, List.filter_nil] at pair
    exact List.pairwise_iff_forall_sublist.mp (pairwise_placed entries scored)
      (pair.trans List.filter_sublist)

theorem picks_best (same : scored.length = entries.length) (limit : Nat) :
    ∃ places, Picks entries scored limit (best limit ((placed entries scored).map Prod.fst))
      places := by
  have sorted := pairwise_sorted entries scored
  have apart : ((placed entries scored).mergeSort better).Pairwise fun a b => a.2 ≠ b.2 := by
    have distinct := (pairwise_placed entries scored).imp Nat.ne_of_lt
    exact ((List.mergeSort_perm _ better).pairwise_iff Ne.symm).mpr distinct
  have split := List.take_append_drop limit ((placed entries scored).mergeSort better)
  have perm := List.mergeSort_perm (placed entries scored) better
  refine ⟨(((placed entries scored).mergeSort better).take limit).map Prod.snd, ?_⟩
  rw [best_eq]
  refine ⟨?_, ?_, ?_, ?_, ?_⟩
  · rw [List.map_map, List.map_map]
    refine List.map_congr_left ?_
    intro a member
    exact mem_placed.mp (perm.subset (List.mem_of_mem_take member))
  · rw [List.Nodup, List.pairwise_map]
    exact apart.sublist (List.take_sublist _ _)
  · rw [List.pairwise_map]
    exact sorted.sublist (List.take_sublist _ _)
  · intro i member j missing found
    obtain ⟨a, chosen, rfl⟩ := List.mem_map.mp member
    obtain ⟨k, found⟩ := Option.isSome_iff_exists.mp found
    -- a place that is not among the first ones is among those after them
    have cutOff : (k, j) ∈ ((placed entries scored).mergeSort better).drop limit := by
      have inside := perm.symm.subset (mem_placed.mpr found)
      rw [← split, List.mem_append] at inside
      refine inside.resolve_left ?_
      intro chosen
      exact missing (List.mem_map_of_mem chosen)
    rw [← split, List.pairwise_append] at sorted
    exact sorted.2.2 a chosen (k, j) cutOff
  · rw [List.length_map, List.length_take, perm.length_eq, length_placed same]

/-! ## What does not fit -/

/-- A name that does not fit leaves no trace in what a scorer remembers. -/
def Quiet (scorer : σ → String → Option Int × σ) : Prop :=
  ∀ state name, (scorer state name).1 = none → (scorer state name).2 = state

theorem collect_matching (quiet : Quiet scorer) (state : σ) (entries : List SearchEntry) :
    collect scorer state (matching entries (scores scorer state entries)) =
      collect scorer state entries := by
  induction entries generalizing state with
  | nil => rfl
  | cons e es ih =>
    have silent := quiet state e.name
    simp only [matching, scores, List.zip_cons_cons, List.filter_cons] at ih ⊢
    cases found : scorer state e.name with
    | mk score later =>
      rw [found] at silent
      cases score with
      | none =>
        obtain rfl : later = state := silent rfl
        simpa [collect, found] using ih later
      | some x => simp [collect, found, ih]

/-- A ranking of scored entries: for each limit it picks the best, a greater one only adds hits at
the end, and between entries that fit others may stand or not. -/
structure IsStableTop (scores : List SearchEntry → List (Option Int))
    (ranking : List SearchEntry → Nat → List Hit) : Prop where
  picks : ∀ entries limit,
    ∃ places, Picks entries (scores entries) limit (ranking entries limit) places
  grows : ∀ entries few many, few ≤ many → ranking entries few <+: ranking entries many
  unmoved : ∀ entries others,
    matching entries (scores entries) = matching others (scores others) →
    ∀ limit, ranking entries limit = ranking others limit

theorem isStableTop_rank (quiet : Quiet scorer) (state : σ) :
    IsStableTop (scores scorer state) (rank scorer state) := by
  refine ⟨?_, ?_, ?_⟩
  · intro entries limit
    rw [rank, collect_eq]
    exact picks_best (length_scores state entries) limit
  · intro entries few many le
    exact List.take_prefix_take_left le
  · intro entries others same limit
    rw [rank, rank, ← collect_matching quiet, same, collect_matching quiet]

theorem scores_eq_map (fit : String → Option Int) (entries : List SearchEntry) :
    scores (fun _ name => (fit name, ())) () entries = entries.map fun e => fit e.name := by
  induction entries with
  | nil => rfl
  | cons e es ih => rw [scores, ih, List.map_cons]

end Hit

theorem Alignment.quiet_score (q : Alignment.Query) : Hit.Quiet (Alignment.score q) := by
  intro m name missed
  unfold Alignment.score at missed ⊢
  split
  · rfl
  · split
    · rfl
    · rename_i empty _ _ found
      simp [empty, found] at missed

/-- Under any function from names and queries to scores the ranking is a stable selection of the
best; so is the search, whose scores are those that the alignment gives the names in turn. -/
theorem search_isStableTop :
    (∀ (fit : String → String → Option Int) (query : String),
      Hit.IsStableTop (fun entries => entries.map fun e => fit e.name query)
        (rank (fun _ name => (fit name query, ())) ())) ∧
    ∀ query, Hit.IsStableTop (Hit.scores (Alignment.score (.ofText query)) #[])
      fun entries limit => search entries query limit := by
  refine ⟨?_, fun query => Hit.isStableTop_rank (Alignment.quiet_score _) _⟩
  intro fit query
  have quiet : Hit.Quiet fun (_ : Unit) name => (fit name query, ()) := fun _ _ _ => rfl
  have scores : Hit.scores (fun _ name => (fit name query, ())) () =
      fun entries => entries.map fun e => fit e.name query :=
    funext (Hit.scores_eq_map fun name => fit name query)
  exact scores ▸ Hit.isStableTop_rank quiet ()

end Taxonomy
