import PageReach.Proofs.Engine.Walk
import PageReach.Proofs.Walk.Limits

/-!
# The limits of an engine's walks

What has been said about distances and limits for any journey, for the walks that an engine makes in
a session. `visits_within_limit` is about the limit of hops, and `walk_by_distance` says which files
are visited and in which order, where there are no barrels.
-/

namespace PageReach.Engine

variable {e : Engine} {entry : String} {facts : Table (List Fact)}

/-! ## The limit of hops: `maxHops` -/

/-- **Only names go beyond the limit of hops, and only by one.** Whether or not a walk is truncated,
a file is visited within the limit, or else one hop beyond it, as the origin of a name that a file
one hop before the limit imports through a barrel (`AskedAtLimit`). Operations are kept at the hops
of visited files. If barrels are imported only as a whole, nothing is beyond the limit. -/
theorem visits_within_limit (e : Engine) (entry : String) (facts : Table (List Fact))
    (s s' : Session) (w : Walk) (hs : e.Faithful s)
    (hrun : (e.walk entry facts).on s = (.ok w, s')) :
    (∀ f hop, (e.plain entry facts).VisitsAt w f hop →
      hop ≤ Walk.maxHops ∨ hop = Walk.maxHops + 1 ∧ (e.plain entry facts).AskedAtLimit w f) ∧
    (∀ name x, w.best.get? name = some x →
      ∃ f, (e.plain entry facts).VisitsAt w f x.2 ∧ x.1 ∈ (facts.get? f).getD []) ∧
    ((e.plain entry facts).WholeBarrels →
      (∀ f hop, (e.plain entry facts).VisitsAt w f hop → hop ≤ Walk.maxHops) ∧
      ∀ name x, w.best.get? name = some x → x.2 ≤ Walk.maxHops) := by
  obtain ⟨hended, -⟩ := ended_of_walk hs hrun
  have hbest (name : String) (x : Fact × Nat) (hx : w.best.get? name = some x) :
      ∃ f, (e.plain entry facts).VisitsAt w f x.2 ∧ x.1 ∈ (facts.get? f).getD [] := by
    obtain ⟨f, hf, hfact, hhop⟩ := hended.exists_visited_of_best hx
    exact ⟨f, hended.visitsAt_iff.mpr ⟨hf, hhop⟩, hfact⟩
  refine ⟨?_, hbest, fun hwhole => ?_⟩
  · intro f hop hvisits
    exact hended.within_or_asked (hended.visitsAt_iff.mp hvisits).2
  · have hle (f : String) (hop : Nat) (hvisits : (e.plain entry facts).VisitsAt w f hop) :
        hop ≤ Walk.maxHops :=
      hended.hops_le hwhole (hended.visitsAt_iff.mp hvisits).2
    refine ⟨hle, fun name x hx => ?_⟩
    obtain ⟨f, hvisits, -⟩ := hbest name x hx
    exact hle f x.2 hvisits

/-- A file behind a barrel is two hops away, well within the limit. -/
theorem visits_within_limit_of_circle :
    ∃ w s', ((ofTexts barrelInCircle).walk "a.ts" .empty).on {} = (.ok w, s') ∧
      w.hops.get? "c.ts" = some 2 ∧
      ∀ f hop, ((ofTexts barrelInCircle).plain "a.ts" .empty).VisitsAt w f hop →
        hop ≤ Walk.maxHops ∨ hop = Walk.maxHops + 1 ∧
          ((ofTexts barrelInCircle).plain "a.ts" .empty).AskedAtLimit w f := by
  obtain ⟨w, s', hrun, -, -, hhops, -⟩ := walk_circle
  refine ⟨w, s', hrun, ?_, ?_⟩
  · rw [Table.get?, hhops]
    rfl
  · exact (visits_within_limit _ "a.ts" .empty {} s' w (faithful_new _) hrun).1

/-! ## Distances: `NearestFirst` -/

theorem route_known {n : Nat} {f : String} (h : (e.plain entry facts).Route n f) :
    f ∈ entry :: e.index.files := by
  cases h with
  | entry => exact List.mem_cons_self
  | edge _ hl =>
      exact List.mem_cons_of_mem _ (mem_index_of_resolve (Answers.resolve_of_plain hl.2.1))

/-- **Without barrels, a walk goes by distance.** Let no file that edges lead to be a barrel
(`NoBarrels`), except perhaps the entry, and let nothing go wrong (`Safe`). Then the walk comes
back. The files whose distance from the entry is within the limit of hops can be ordered nearest
first such that the walk visits them in this order, each once, until there are no more of them or
the limit of files is reached. Each file is visited, and its facts are met, at its distance. The
walk is truncated exactly if there are more files than it may visit, or if a file that stands just
at the limit of hops has any edge. -/
theorem walk_by_distance (e : Engine) (entry : String) (facts : Table (List Fact)) (s : Session)
    (hsafe : e.Safe entry) (hs : e.Faithful s) (hplain : (e.plain entry facts).NoBarrels) :
    ∃ w s' order,
      (e.walk entry facts).on s = (.ok w, s') ∧ e.Faithful s' ∧
      (e.plain entry facts).NearestFirst order ∧
      w.visited = order.take e.limit ∧
      (∀ f ∈ w.visited, ∃ d, (e.plain entry facts).Distance f d ∧
        (e.plain entry facts).VisitsAt w f d) ∧
      (∀ distance : String → Nat,
        (∀ f ∈ w.visited, (e.plain entry facts).Distance f (distance f)) →
        w.best = Journey.nearest
          (w.visited.flatMap fun f => ((facts.get? f).getD []).map (·, distance f))) ∧
      (w.truncated = true ↔ e.limit < order.length ∨
        ∃ f, (e.plain entry facts).Distance f Walk.maxHops ∧
          ((e.plain entry facts).graph.edges f).run ≠ []) := by
  obtain ⟨s', hrun, hs'⟩ := hsafe.walk hs facts (Nat.le_refl _)
  obtain ⟨hended, -⟩ := ended_of_walk hs hrun
  have hwhole := hplain.wholeBarrels
  obtain ⟨order, horder, hvisited, htruncated⟩ :=
    hended.nearestFirst hwhole fun _ _ hroute => route_known hroute
  refine ⟨_, s', order, hrun, hs', horder, hvisited, ?_, ?_, htruncated⟩
  · intro f hf
    obtain ⟨hop, hhop, hdist⟩ := hended.distance hwhole hf
    exact ⟨hop, hdist, hended.visitsAt_iff.mpr ⟨hf, hhop⟩⟩
  · intro distance hdist
    exact hended.best_by_distance hwhole hdist

/-- Three files in a circle, with an edge that leads back and one that leads nowhere. -/
def ring : List (String × String) :=
  [("a.ts", "import './b';\nimport './c';\nexport const a = 1;\n"),
    ("b.ts", "import './a';\nimport './d';\nexport const b = 1;\n"),
    ("c.ts", "import './b';\nexport const c = 1;\n")]

/-- Of the three files in `ring`, the walk may visit two, and it takes the nearest. -/
theorem walk_by_distance_around :
    let e : Engine := { ofTexts ring with limit := 2 }
    e.Safe "a.ts" ∧ (e.plain "a.ts" .empty).NoBarrels ∧
      ∃ w s' order, (e.walk "a.ts" .empty).on {} = (.ok w, s') ∧
        w.visited = ["a.ts", "b.ts"] ∧ w.truncated = true ∧
        (e.plain "a.ts" .empty).NearestFirst order ∧ order.take 2 = ["a.ts", "b.ts"] := by
  intro e
  have hsafe : e.Safe "a.ts" := by
    have h : (ofTexts ring).Safe "a.ts" := ofTexts_safe (by decide +kernel)
    exact ⟨h.resolves, h.usable⟩
  have hplain : (e.plain "a.ts" .empty).NoBarrels := by
    have hfiles : ∀ f ∈ "a.ts" :: e.index.files, ¬ (e.plain "a.ts" .empty).IsBarrel f := by
      decide +kernel
    intro n f hroute _
    exact hfiles f (route_known hroute)
  obtain ⟨w, s', order, hrun, -, horder, hvisited, -⟩ :=
    walk_by_distance e "a.ts" .empty {} hsafe (faithful_new _) hplain
  have heval : ((e.walk "a.ts" .empty).on {}).1.toOption.map (fun w => (w.visited, w.truncated)) =
      some (["a.ts", "b.ts"], true) := by
    decide +kernel
  obtain ⟨w', s'', hrun', hw⟩ := ExceptT.exists_on heval
  cases hrun.symm.trans hrun'
  simp only [Prod.mk.injEq] at hw
  exact ⟨hsafe, hplain, w, s', order, hrun, hw.1, hw.2, horder, hvisited.symm.trans hw.1⟩

end PageReach.Engine
