import Mathlib.Data.List.Sort
import Mathlib.Order.Bounds.Basic
import Mathlib.Order.Lattice.Nat
import PageReach.Proofs.Walk.Best
import PageReach.Proofs.Walk.Hops

/-!
# Distances

If barrels are imported only as a whole (`WholeBarrels`), a walk is a search in breadth: its hops
are distances (`WholeBarrels.distance`), that is, least numbers of edges from the entry. It visits
files nearest first and stops in one of two ways (`Ended.nearestFirst`). Either it has visited all
files within the limit of hops, or it has visited as many files as it may, and these are the
beginning of such an order. What is beyond the limit of hops is given away, and the walk is
truncated if there were edges that might have led there (`WholeBarrels.drops_iff`).
-/

namespace PageReach.Journey

variable {j : Journey Id} {w w' : Walk} {f g : String} {n d : Nat}

/-! ## Routes: `Route` and `Distance` -/

/-- A file is reached from `entry` by so many edges. -/
inductive Route (j : Journey Id) : Nat → String → Prop where
  | entry : Route j 0 j.entry
  | edge {n : Nat} {f t : String} {e : Edge} : Route j n f → j.Leads f e t → Route j (n + 1) t

/-- The least number `d` of edges by which the file `f` is reached. -/
def Distance (j : Journey Id) (f : String) (d : Nat) : Prop := IsLeast { n | j.Route n f } d

theorem Route.exists_distance (h : j.Route n f) : ∃ d ≤ n, j.Distance f d :=
  ⟨sInf { n | j.Route n f }, Nat.sInf_le h, Nat.sInf_mem ⟨n, h⟩, fun _ hm => Nat.sInf_le hm⟩

/-- No file that is reached by edges is a barrel, except that the entry may be one. -/
def NoBarrels (j : Journey Id) : Prop := ∀ n f, j.Route n f → f ≠ j.entry → ¬ j.IsBarrel f

theorem NoBarrels.not_enters (h : j.NoBarrels) {b : String} {e : Edge} (hf : j.Route n f) :
    ¬ j.Enters f e b :=
  fun he => h (n + 1) b (hf.edge he.1) he.2.2 he.2.1

/-- Without barrels, what is to be reached is what a `Route` leads to. -/
theorem NoBarrels.exists_route (h : j.NoBarrels) {s : Standing} (hf : j.Stands s f) :
    ∃ n, j.Route n f := by
  induction hf with
  | entry _ => exact ⟨0, .entry⟩
  | plain _ _ ih => exact ih
  | edge _ hl ih =>
      obtain ⟨n, hn⟩ := ih
      exact ⟨n + 1, hn.edge hl⟩
  | whole _ he _ ih =>
      obtain ⟨n, hn⟩ := ih
      exact absurd he (h.not_enters hn)
  | stuck _ ha _ ih =>
      obtain ⟨n, hn⟩ := ih
      exact absurd ha.1 (h.not_enters hn)
  | origin _ ha _ ih =>
      obtain ⟨n, hn⟩ := ih
      exact absurd ha.1 (h.not_enters hn)
  | barrel _ ha _ _ ih =>
      obtain ⟨n, hn⟩ := ih
      exact absurd ha.1 (h.not_enters hn)

theorem NoBarrels.wholeBarrels (h : j.NoBarrels) : j.WholeBarrels := by
  intro f e b hf he hr hb hne
  obtain ⟨n, hn⟩ := h.exists_route hf
  by_cases hbf : b = f
  · subst hbf
    exact absurd hb (h n b hn hne)
  · exact absurd ⟨⟨he, hr, hbf⟩, hb, hne⟩ (h.not_enters hn)

/-! ## Hops are distances -/

/-- A file is known as the entry, or by an edge of a file below `Walk.maxHops`. -/
theorem WholeBarrels.known_by (hwhole : j.WholeBarrels) (h : j.Rounds j.start w) {hop : Nat}
    (hg : w.hops.get? g = some hop) :
    (g = j.entry ∧ hop = 0) ∨
      ∃ p e n, w.hops.get? p = some n ∧ n < Walk.maxHops ∧ j.Leads p e g ∧ hop = n + 1 := by
  have hlinked := h.moves.linked
  by_cases hentry : g = j.entry
  · subst hentry
    cases hg.symm.trans hlinked.start
    exact .inl ⟨rfl, rfl⟩
  · obtain ⟨link, -, hoffer⟩ := hlinked.others g hop hg hentry
    obtain ⟨p, e, n, -, hn, hnear, hl, rfl⟩ := hwhole.offer h.sound hoffer
    exact .inr ⟨p, e, n, hn, hnear, hl, rfl⟩

theorem WholeBarrels.route (hwhole : j.WholeBarrels) (h : j.Rounds j.start w) {hop : Nat}
    (hg : w.hops.get? g = some hop) : j.Route hop g := by
  induction hop using Nat.strongRecOn generalizing g with
  | _ hop ih =>
    rcases hwhole.known_by h hg with ⟨rfl, rfl⟩ | ⟨p, e, n, hn, -, hl, rfl⟩
    · exact .entry
    · exact (ih n (Nat.lt_succ_self n) hn).edge hl

/-- No file is known to be farther away than `Walk.maxHops`. -/
theorem WholeBarrels.hops_le (hwhole : j.WholeBarrels) (h : j.Rounds j.start w) {hop : Nat}
    (hg : w.hops.get? g = some hop) : hop ≤ Walk.maxHops := by
  rcases hwhole.known_by h hg with ⟨-, rfl⟩ | ⟨-, -, n, -, hnear, -, rfl⟩
  · exact Nat.zero_le _
  · exact hnear

/-- A file within the limit of hops is visited, or some file that is as near is still waiting. -/
theorem WholeBarrels.visited_or_waiting (hwhole : j.WholeBarrels) (h : j.Rounds j.start w)
    (hg : j.Route n g) (hn : n ≤ Walk.maxHops) :
    (g ∈ w.visited ∧ ∃ hop ≤ n, w.hops.get? g = some hop) ∨
      ∃ f ∉ w.visited, ∃ hop ≤ n, w.hops.get? f = some hop := by
  have known {f : String} {n : Nat} (hf : ∃ hop ≤ n, w.hops.get? f = some hop) :
      (f ∈ w.visited ∧ ∃ hop ≤ n, w.hops.get? f = some hop) ∨
        ∃ f ∉ w.visited, ∃ hop ≤ n, w.hops.get? f = some hop := by
    by_cases hv : f ∈ w.visited
    · exact .inl ⟨hv, hf⟩
    · exact .inr ⟨f, hv, hf⟩
  induction hg with
  | entry => exact known ⟨0, Nat.le_refl 0, h.moves.linked.start⟩
  | @edge n f t e hf hl ih =>
      rcases ih (Nat.le_of_succ_le hn) with ⟨hv, hop, hle, hhop⟩ | ⟨f', hf', hop, hle, hhop⟩
      · -- a visited file below the limit has been followed, so all its edges are known
        obtain ⟨hop', hhop', hle'⟩ := (hwhole.levelled h).edges f (hwhole.expanded h hv) hop hhop
          (Nat.lt_of_le_of_lt hle hn) e t hl
        exact known ⟨hop', by omega, hhop'⟩
      · exact .inr ⟨f', hf', hop, Nat.le_succ_of_le hle, hhop⟩

/-- Visited files stand at their `Distance`. -/
theorem WholeBarrels.distance (hwhole : j.WholeBarrels) (h : j.Rounds j.start w) {hop : Nat}
    (hg : g ∈ w.visited) (hhop : w.hops.get? g = some hop) : j.Distance g hop := by
  refine ⟨hwhole.route h hhop, fun n hroute => ?_⟩
  have hlimit := hwhole.hops_le h hhop
  by_contra hlt
  rcases hwhole.visited_or_waiting h hroute (by omega) with ⟨-, m, hle, hm⟩ | ⟨f, hf, m, hle, hm⟩
  · cases hhop.symm.trans hm
    exact hlt hle
  · have hwait := (hwhole.levelled h).visited g hg hop hhop _ (h.sound.waiting f m hm hf)
    exact hlt (Nat.le_trans hwait hle)

/-- Files that are not visited are no nearer than those that are. -/
theorem WholeBarrels.visited_nearer (hwhole : j.WholeBarrels) (h : j.Rounds j.start w) {m : Nat}
    (hf : f ∈ w.visited) (hm : j.Distance f m) (hg : g ∉ w.visited) (hn : j.Distance g n)
    (hnear : n ≤ Walk.maxHops) : m ≤ n := by
  obtain ⟨hop, hhop⟩ := h.sound.known f hf
  obtain rfl := IsLeast.unique hm (hwhole.distance h hf hhop)
  rcases hwhole.visited_or_waiting h hn.1 hnear with ⟨hv, -⟩ | ⟨f', hf', k, hle, hk⟩
  · exact absurd hv hg
  · exact Nat.le_trans ((hwhole.levelled h).visited f hf m hhop _ (h.sound.waiting f' k hk hf')) hle

/-! ## The order of visits: `NearestFirst` -/

/-- The files within `Walk.maxHops`, each once and nearest first. -/
structure NearestFirst (j : Journey Id) (order : List String) : Prop where
  nodup : order.Nodup
  near : ∀ f, f ∈ order ↔ ∃ d ≤ Walk.maxHops, j.Distance f d
  sorted : order.Pairwise fun f g => ∀ m n, j.Distance f m → j.Distance g n → m ≤ n

theorem WholeBarrels.near_of_visited (hwhole : j.WholeBarrels) (h : j.Rounds j.start w)
    (hf : f ∈ w.visited) : ∃ d ≤ Walk.maxHops, j.Distance f d := by
  obtain ⟨hop, hhop⟩ := h.sound.known f hf
  exact ⟨hop, hwhole.hops_le h hhop, hwhole.distance h hf hhop⟩

theorem WholeBarrels.visited_sorted (hwhole : j.WholeBarrels) (h : j.Rounds j.start w) :
    w.visited.Pairwise fun f g => ∀ m n, j.Distance f m → j.Distance g n → m ≤ n := by
  induction h with
  | refl => exact List.Pairwise.nil
  | @tail u v hrounds hround ih =>
      cases hround with
      | skip _ _ => exact ih
      | @visit hop f rest _ hq hf hl hp hself =>
          rw [hp.visited]
          refine List.pairwise_append.mpr ⟨ih, List.pairwise_singleton _ f, ?_⟩
          intro g hg f' hf' m n hm hn
          obtain rfl := List.mem_singleton.mp hf'
          -- the file that comes up stands in the queue within the limit
          have hhop := (Rounds.sound hrounds).head_hops hq hf
          have hle : n ≤ hop := hn.2 (hwhole.route hrounds hhop)
          exact hwhole.visited_nearer hrounds hg hm hf hn
            (Nat.le_trans hle (hwhole.hops_le hrounds hhop))

/-- The files within the limit of hops, except for those in `visited`, can be put in order. -/
theorem exists_sorted {known : List String} (hknown : ∀ n f, j.Route n f → f ∈ known)
    (visited : List String) :
    ∃ rest : List String, rest.Nodup ∧
      (∀ f, f ∈ rest ↔ f ∉ visited ∧ ∃ d ≤ Walk.maxHops, j.Distance f d) ∧
      rest.Pairwise fun f g => ∀ m n, j.Distance f m → j.Distance g n → m ≤ n := by
  classical
  let distance (f : String) : Nat := sInf { n | j.Route n f }
  let near := known.dedup.filter fun f => f ∉ visited ∧ ∃ d ≤ Walk.maxHops, j.Distance f d
  have hdistance {f : String} {d : Nat} (hd : j.Distance f d) : distance f = d :=
    Nat.le_antisymm (Nat.sInf_le hd.1) (hd.2 (Nat.sInf_mem ⟨d, hd.1⟩))
  have hsorted : (near.mergeSort fun f g => distance f ≤ distance g).Pairwise fun f g =>
      decide (distance f ≤ distance g) = true := by
    apply List.pairwise_mergeSort
    · intro a b c hab hbc
      simp only [decide_eq_true_eq] at hab hbc ⊢
      exact Nat.le_trans hab hbc
    · intro a b
      simp only [Bool.or_eq_true, decide_eq_true_eq]
      exact Nat.le_total _ _
  refine ⟨near.mergeSort fun f g => distance f ≤ distance g, ?_, ?_, ?_⟩
  · exact (List.mergeSort_perm near _).nodup_iff.mpr ((List.nodup_dedup known).filter _)
  · intro f
    rw [List.mem_mergeSort, List.mem_filter, List.mem_dedup, decide_eq_true_eq, and_iff_right_iff_imp]
    rintro ⟨-, d, -, hd⟩
    exact hknown d f hd.1
  · refine hsorted.imp fun hle m n hm hn => ?_
    rw [decide_eq_true_eq, hdistance hm, hdistance hn] at hle
    exact hle

/-- What has been `visited` can be continued to an order of all files within the limit of hops. -/
theorem WholeBarrels.exists_order (hwhole : j.WholeBarrels) (h : j.Rounds j.start w)
    {known : List String} (hknown : ∀ n f, j.Route n f → f ∈ known) :
    ∃ rest, j.NearestFirst (w.visited ++ rest) := by
  obtain ⟨rest, hnodup, hmem, hsorted⟩ := exists_sorted hknown w.visited
  refine ⟨rest, ?_, ?_, ?_⟩
  · refine List.nodup_append.mpr ⟨h.sound.nodup, hnodup, ?_⟩
    rintro f hf g hg rfl
    exact ((hmem f).mp hg).1 hf
  · intro f
    rw [List.mem_append, hmem]
    constructor
    · rintro (hf | ⟨-, hf⟩)
      · exact hwhole.near_of_visited h hf
      · exact hf
    · intro hf
      by_cases hv : f ∈ w.visited
      · exact .inl hv
      · exact .inr ⟨hv, hf⟩
  · refine List.pairwise_append.mpr ⟨hwhole.visited_sorted h, hsorted, ?_⟩
    intro f hf g hg m n hm hn
    obtain ⟨hv, d, hd, hdist⟩ := (hmem g).mp hg
    obtain rfl := IsLeast.unique hn hdist
    exact hwhole.visited_nearer h hf hm hv hn hd

/-! ## How the walk ends -/

theorem Moves.length_visited_le (h : j.Moves j.start w) : w.visited.length ≤ j.limit := by
  induction h with
  | refl => exact Nat.zero_le _
  | tail _ hmove ih =>
      cases hmove with
      | push _ => rwa [Walk.push_visited]
      | opening _ => rwa [Walk.openBarrel_visited]
      | takeUp _ _ _ _ => exact ih
      | skip _ _ => exact ih
      | visit _ _ hlimit =>
          simp only [Walk.visit, List.length_append, List.length_singleton]
          omega

/-- If all files within the limit of hops are visited, edges are dropped exactly at the limit. -/
theorem WholeBarrels.drops_iff (hwhole : j.WholeBarrels) (h : j.Rounds j.start w)
    (hall : ∀ f d, d ≤ Walk.maxHops → j.Distance f d → f ∈ w.visited) :
    j.Drops w ↔ ∃ f, j.Distance f Walk.maxHops ∧ (j.graph.edges f).run ≠ [] := by
  constructor
  · rintro ⟨f, hf, ⟨n, hn, hfar⟩, hedges⟩
    have hdist := hwhole.distance h (h.sound.expanded_visited f hf) hn
    obtain rfl := Nat.le_antisymm hfar (hwhole.hops_le h hn)
    exact ⟨f, hdist, hedges⟩
  · rintro ⟨f, hdist, hedges⟩
    have hv := hall f _ (Nat.le_refl _) hdist
    obtain ⟨hop, hhop⟩ := h.sound.known f hv
    obtain rfl := IsLeast.unique hdist (hwhole.distance h hv hhop)
    exact ⟨f, hwhole.expanded h hv, ⟨_, hhop, Nat.le_refl _⟩, hedges⟩

/-- **A walk visits nearest first** as many files as it may of those within the limit of hops. It is
truncated if there are more of these, or if there are edges at the limit of hops. -/
theorem Ended.nearestFirst (h : j.Ended w) (hwhole : j.WholeBarrels) {known : List String}
    (hknown : ∀ n f, j.Route n f → f ∈ known) :
    ∃ order, j.NearestFirst order ∧ w.visited = order.take j.limit ∧
      (w.truncated = true ↔ j.limit < order.length ∨
        ∃ f, j.Distance f Walk.maxHops ∧ (j.graph.edges f).run ≠ []) := by
  cases h with
  | empty hm hq =>
      obtain ⟨rest, horder⟩ := hwhole.exists_order hm hknown
      have hall (f : String) (d : Nat) (hd : d ≤ Walk.maxHops) (hf : j.Distance f d) :
          f ∈ w.visited := by
        rcases hwhole.visited_or_waiting hm hf.1 hd with ⟨hv, -⟩ | ⟨g, hg, hop, -, hhop⟩
        · exact hv
        · exact absurd (hm.sound.visited_of_known hq hhop) hg
      have hrest : rest = [] := by
        refine List.eq_nil_iff_forall_not_mem.mpr fun f hf => ?_
        obtain ⟨d, hd, hdist⟩ := (horder.near f).mp (List.mem_append_right _ hf)
        exact (List.nodup_append.mp horder.nodup).2.2 f (hall f d hd hdist) f hf rfl
      subst hrest
      rw [List.append_nil] at horder
      have hlimit := hm.moves.length_visited_le
      refine ⟨w.visited, horder, (List.take_of_length_le hlimit).symm, ?_⟩
      rw [hm.moves.truncated_iff, hwhole.drops_iff hm hall]
      exact (or_iff_right (Nat.not_lt.mpr hlimit)).symm
  | @cut u hop f rest' hm hq hf hlimit =>
      obtain ⟨rest, horder⟩ := hwhole.exists_order hm hknown
      have hlength : u.visited.length = j.limit :=
        Nat.le_antisymm hm.moves.length_visited_le hlimit
      -- the file that comes up is one more within the limit of hops
      have hmore : f ∈ rest := by
        have hhop := hm.sound.head_hops hq hf
        obtain ⟨d, hle, hd⟩ := (hwhole.route hm hhop).exists_distance
        have hnear := Nat.le_trans hle (hwhole.hops_le hm hhop)
        exact (List.mem_append.mp ((horder.near f).mpr ⟨d, hnear, hd⟩)).resolve_left hf
      refine ⟨u.visited ++ rest, horder, ?_, ?_⟩
      · rw [← hlength, List.take_left]
      · have hpos := List.length_pos_of_mem hmore
        have hlt : j.limit < (u.visited ++ rest).length := by
          rw [List.length_append]
          omega
        exact ⟨fun _ => .inl hlt, fun _ => rfl⟩

theorem Ended.hops_le (h : j.Ended w) (hwhole : j.WholeBarrels) {hop : Nat}
    (hg : w.hops.get? g = some hop) : hop ≤ Walk.maxHops := by
  obtain ⟨u, hm, hw⟩ := h.came
  rw [hw] at hg
  exact hwhole.hops_le hm hg

theorem Ended.distance (h : j.Ended w) (hwhole : j.WholeBarrels) (hf : f ∈ w.visited) :
    ∃ hop, w.hops.get? f = some hop ∧ j.Distance f hop := by
  obtain ⟨u, hm, hw⟩ := h.came
  rw [hw] at hf ⊢
  obtain ⟨hop, hhop⟩ := hm.sound.known f hf
  exact ⟨hop, hhop, hwhole.distance hm hf hhop⟩

/-- The facts that are kept have been met at the `distance` of their files. -/
theorem Ended.best_by_distance (h : j.Ended w) (hwhole : j.WholeBarrels) {distance : String → Nat}
    (hdist : ∀ f ∈ w.visited, j.Distance f (distance f)) :
    w.best = nearest
      (w.visited.flatMap fun f => ((j.facts.get? f).getD []).map (·, distance f)) := by
  rw [h.best_eq, met]
  congr 1
  refine List.flatMap_congr fun f hf => ?_
  obtain ⟨hop, hhop, hd⟩ := h.distance hwhole hf
  rw [hhop, Option.getD_some, IsLeast.unique hd (hdist f hf)]

end PageReach.Journey
