import PageReach.Proofs.Engine.Walk
import PageReach.Proofs.Evidence

/-!
# The evidence of an engine's walks

What has been said about evidence for any journey, for the walks that an engine makes in a session:
`evidence_follows_trail`.
-/

namespace PageReach.Engine

/-- **Evidence is a trail from the entry.** Whether or not a walk is truncated, each visited file
but the entry has been reached from a file that was visited before it. The links back from it
(`Trail`) lead to the entry and come to no file twice. The evidence for an operation there shows all
of them, and then the operation. It has at most as many steps as the file has hops exactly if its
re-exports take one hop or more on average, and as many if there is no shortcut. -/
theorem evidence_follows_trail (e : Engine) (entry : String) (facts : Table (List Fact))
    (s s' : Session) (w : Walk) (hs : e.Faithful s)
    (hrun : (e.walk entry facts).on s = (.ok w, s')) :
    w.parents.get? entry = none ∧
    ∀ g ∈ w.visited, g ≠ entry → ∃ link front back hop steps,
      (w.parents.get? g = some link ∧ w.visited = front ++ g :: back ∧ link.parent ∈ front) ∧
      (e.plain entry facts).VisitsAt w g hop ∧
      (e.plain entry facts).Trail w steps g ∧
      ((e.plain entry facts).trailFiles steps).Nodup ∧
      steps ≠ [] ∧
      steps.map (·.2.parent) = ((e.plain entry facts).trailFiles steps).dropLast ∧
      ((e.plain entry facts).trailFiles steps).getLast? = some g ∧
      (∀ name source, Evidence.ofSource w.parents entry g name source =
        (steps.map fun s => Evidence.ofLink s.1 s.2) ++
          [⟨"operation-reference", g, "ref:" ++ name,
            (source.bind (Evidence.referenceLine? · name)).map Int.ofNat⟩]) ∧
      (steps.length ≤ hop ↔
        0 ≤ ((steps.filter Journey.isReexport).map (Journey.excess w)).sum) ∧
      ((e.plain entry facts).NoShortcut w → steps.length = hop) := by
  obtain ⟨hended, -⟩ := ended_of_walk hs hrun
  have hlinked := hended.linked
  refine ⟨hlinked.entry, ?_⟩
  intro g hg hne
  obtain ⟨link, front, back, hlink, hsplit, hparent⟩ := hended.preceded g hg hne
  obtain ⟨hop, hhop⟩ := hended.known hg
  obtain ⟨steps, htrail, hnodup, hsub⟩ := hended.preceded.exists_trail hended.nodup hsplit
  have hknown : ∀ f ∈ (e.plain entry facts).trailFiles steps, ∃ n, w.hops.get? f = some n := by
    intro f hf
    refine hended.known ?_
    rw [hsplit]
    rcases List.mem_append.mp (hsub hf) with hf | hf
    · exact List.mem_append_left _ hf
    · exact List.mem_append_right _ (List.mem_singleton.mp hf ▸ List.mem_cons_self)
  have hdepth : Journey.depth w g = hop := by
    rw [Journey.depth, hhop, Option.getD_some]
  refine ⟨link, front, back, hop, steps, ⟨hlink, hsplit, hparent⟩,
    hended.visitsAt_iff.mpr ⟨hg, hhop⟩, htrail, hnodup, ?_, htrail.parents, htrail.getLast, ?_, ?_, ?_⟩
  · rintro rfl
    exact hne (Option.some.inj htrail.getLast).symm
  · intro name source
    rw [Evidence.ofSource, ← htrail.chain_eq hnodup]
    rfl
  · have hlength := htrail.depth_eq hlinked hknown
    omega
  · intro hshort
    have hlength := hshort.depth_eq htrail hlinked hknown
    omega

/-- A name is imported through a barrel: the evidence shows the way in and the way out. -/
theorem evidence_follows_trail_of_circle :
    ∃ w s', ((ofTexts barrelInCircle).walk "a.ts" .empty).on {} = (.ok w, s') ∧
      "c.ts" ∈ w.visited ∧
      ∃ steps, ((ofTexts barrelInCircle).plain "a.ts" .empty).Trail w steps "c.ts" ∧
        steps.length = 2 ∧
        Evidence.ofSource w.parents "a.ts" "c.ts" "x" none =
          (steps.map fun s => Evidence.ofLink s.1 s.2) ++
            [⟨"operation-reference", "c.ts", "ref:x", none⟩] := by
  obtain ⟨w, s', hrun, -, hvisited, -, hlength⟩ := walk_circle
  have hmem : "c.ts" ∈ w.visited := by
    rw [hvisited]
    decide
  obtain ⟨-, htrails⟩ :=
    evidence_follows_trail _ "a.ts" .empty {} s' w (faithful_new _) hrun
  obtain ⟨link, front, back, hop, steps, -, -, htrail, -, -, -, -, hevidence, -⟩ :=
    htrails "c.ts" hmem (by decide)
  refine ⟨w, s', hrun, hmem, steps, htrail, ?_, hevidence "x" none⟩
  have hchain := List.append_cancel_right (hevidence "x" none)
  rw [hchain, List.length_map] at hlength
  exact hlength

end PageReach.Engine
