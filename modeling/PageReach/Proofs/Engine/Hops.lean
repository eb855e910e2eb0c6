import PageReach.Proofs.Engine.Walk
import PageReach.Proofs.Walk.Hops

/-!
# The hops of an engine's walks

What has been said about hops for any journey, for the walks that an engine makes in a session:
`leastHops_iff_noShortcut`.
-/

namespace PageReach.Engine

/-- **Hops are right exactly if no step is a shortcut.** In a walk that is not truncated, the entry
is visited at depth zero, and no file is visited too early. Every other file is one hop farther away
than the nearest file from which there is a step to it (`LeastHops`), exactly if no step leads more
than one hop farther away (`NoShortcut`), and exactly if all hops are distances from the entry. This
is so if barrels are imported only as a whole. -/
theorem leastHops_iff_noShortcut (e : Engine) (entry : String) (facts : Table (List Fact))
    (s s' : Session) (w : Walk) (hs : e.Faithful s)
    (hrun : (e.walk entry facts).on s = (.ok w, s')) (ht : w.truncated = false) :
    (∀ f hop, (e.plain entry facts).VisitsAt w f hop ↔
      f ∈ w.visited ∧ w.hops.get? f = some hop) ∧
    (e.plain entry facts).VisitsAt w entry 0 ∧
    (∀ f hop, (e.plain entry facts).VisitsAt w f hop →
      ∃ n ≤ hop, (e.plain entry facts).Chain w n f) ∧
    ((e.plain entry facts).LeastHops w ↔ (e.plain entry facts).NoShortcut w) ∧
    ((e.plain entry facts).LeastHops w ↔ ∀ f ∈ w.visited, ∃ hop, w.hops.get? f = some hop ∧
      IsLeast { n | (e.plain entry facts).Chain w n f } hop) ∧
    ((e.plain entry facts).WholeBarrels → (e.plain entry facts).LeastHops w) := by
  obtain ⟨hended, -⟩ := ended_of_walk hs hrun
  obtain ⟨hrounds, hq⟩ := hended.rounds ht
  have hlinked := hrounds.moves.linked
  refine ⟨fun f hop => hended.visitsAt_iff, ?_, ?_, hended.leastHops_iff ht,
    hended.leastHops_iff_distance ht, fun hwhole => ?_⟩
  · rw [hended.visitsAt_iff]
    exact ⟨hrounds.sound.visited_of_known hq hlinked.start, hlinked.start⟩
  · intro f hop hvisits
    exact Journey.exists_chain hlinked (hended.visitsAt_iff.mp hvisits).2
  · exact (hended.leastHops_iff ht).mpr (hwhole.noShortcut hended ht)

/-- A name is imported through a barrel, and the file behind the barrel is two hops away. -/
theorem leastHops_iff_noShortcut_of_circle :
    ∃ w s', ((ofTexts barrelInCircle).walk "a.ts" .empty).on {} = (.ok w, s') ∧
      w.truncated = false ∧
      ((ofTexts barrelInCircle).plain "a.ts" .empty).VisitsAt w "c.ts" 2 ∧
      ((ofTexts barrelInCircle).plain "a.ts" .empty).LeastHops w := by
  have hedges : ∀ x ∈ (((ofTexts barrelInCircle).plain "a.ts" .empty).graph.edges "a.ts").run,
      (((ofTexts barrelInCircle).plain "a.ts" .empty).graph.resolve "a.ts" x.specifier).run ≠
        some "c.ts" := by
    decide +kernel
  obtain ⟨w, s', hrun, ht, hvisited, hhops, -⟩ := walk_circle
  obtain ⟨hdepth, -, -, hiff, -, -⟩ :=
    leastHops_iff_noShortcut _ "a.ts" .empty {} s' w (faithful_new _) hrun ht
  have hknown (f : String) (n : Nat) (h : w.hops.get? f = some n) :
      (f, n) ∈ [("a.ts", 0), ("b.ts", 1), ("c.ts", 2)] := by
    rw [Table.get?, hhops] at h
    obtain ⟨front, back, hlist, -⟩ := List.lookup_eq_some_iff.mp h
    rw [hlist]
    exact List.mem_append_right _ List.mem_cons_self
  have hc : w.hops.get? "c.ts" = some 2 := by
    rw [Table.get?, hhops]
    rfl
  refine ⟨w, s', hrun, ht, (hdepth _ _).mpr ⟨by rw [hvisited]; decide, hc⟩, hiff.mpr ?_⟩
  -- only a step from the entry to the file behind the barrel could be a shortcut
  intro p g n hop hstep hp hg
  by_contra hlt
  have hfar : p = "a.ts" ∧ g = "c.ts" := by
    have hp' := hknown p n hp
    have hg' := hknown g hop hg
    simp only [List.mem_cons, Prod.mk.injEq, List.not_mem_nil, or_false] at hp' hg'
    grind
  obtain ⟨rfl, rfl⟩ := hfar
  cases hstep with
  | edge _ he hr => exact hedges _ he hr
  | name _ _ _ _ hne _ _ _ => exact hne rfl

end PageReach.Engine
