import PageReach.Module.Resolver
import PageReach.Proofs.Stateful
import PageReach.Proofs.Table

/-!
# What is remembered about configurations

A memory of configurations answers with what it remembers, and else with what is to be found
(`answer`). To ask it may add to what it remembers, but does not change what it answers
(`remember_on`). So the ladder of strategies resolves specifiers by a memory as it does by the
answers of that memory (`tells_resolveRemembering`), and a new memory answers as if there were none
(`answer_new`, `resolve_eq`).
-/

namespace PageReach

variable {d : Disk} {root : String}

namespace ConfigMemory

/-- The configuration for `file` by what is remembered in `m`, or else by what is to be found. -/
def answer (m : ConfigMemory) (d : Disk) (root file : String) :
    Except Fault (Option ProjectConfig) := do
  match ← m.paths.recalled (ProjectConfig.nearestPathIn d root) (Path.directory file) with
  | none => return none
  | some path => m.configs.recalled (ProjectConfig.load d) path

theorem answer_new : answer {} = ProjectConfig.nearest := by
  funext d root file
  show (ProjectConfig.nearestPathIn d root (Path.directory file) >>= _) =
    (ProjectConfig.nearestPathIn d root (Path.directory file) >>= _)
  cases ProjectConfig.nearestPathIn d root (Path.directory file) with
  | error fault => rfl
  | ok path? => cases path? <;> rfl

/-- To `remember` what a table tells changes the table, but none of its answers. -/
theorem remember_on {α : Type} (table : ConfigMemory → Table α)
    (withTable : ConfigMemory → Table α → ConfigMemory) (work : String → Except Fault α)
    (key : String) {m : ConfigMemory} (hsame : withTable m (table m) = m) :
    ∃ t, (remember table withTable work key).on m = ((table m).recalled work key, withTable m t) ∧
      t.recalled work = (table m).recalled work := by
  have hrecalled : (table m).recalled work key = ((table m).get? key).elim (work key) .ok := rfl
  rw [remember, ExceptT.on_bind, ExceptT.on_get]
  dsimp only
  cases hkey : (table m).get? key with
  | some a =>
      rw [hkey] at hrecalled
      exact ⟨table m, by rw [hrecalled, hsame]; rfl, rfl⟩
  | none =>
      rw [hkey, Option.elim_none] at hrecalled
      cases hwork : work key with
      | error e => exact ⟨table m, by rw [hrecalled, hwork, hsame]; rfl, rfl⟩
      | ok a =>
          have ha := hrecalled.trans hwork
          exact ⟨(table m).insert key a, by rw [ha]; rfl, (table m).recalled_insert work ha⟩

theorem tells_nearest {answer' : String → Except Fault (Option ProjectConfig)} (file : String) :
    Tells (fun m => m.answer d root) answer' (nearest d root file) (answer' file) := by
  rintro m rfl
  obtain ⟨paths, hpath, hpaths⟩ := remember_on ConfigMemory.paths (fun m t => { m with paths := t })
    (ProjectConfig.nearestPathIn d root) (Path.directory file) (m := m) rfl
  have hsame : answer { m with paths } d root = m.answer d root := by
    funext file
    rw [answer, answer, hpaths]
  dsimp only
  rw [nearest, ExceptT.on_bind, path?, hpath, answer]
  cases m.paths.recalled _ (Path.directory file) with
  | error e => exact ⟨_, rfl, hsame⟩
  | ok path? =>
      cases path? with
      | none => exact ⟨_, rfl, hsame⟩
      | some path =>
          obtain ⟨configs, hconfig, hconfigs⟩ := remember_on ConfigMemory.configs
            (fun m t => { m with configs := t }) (ProjectConfig.load d) path (m := { m with paths })
            rfl
          refine ⟨_, hconfig, ?_⟩
          rw [← hsame]
          funext file
          rw [answer, answer, hconfigs]

theorem tells_resolveByNearest (d : Disk) (root : String) (index : FileIndex)
    {answer' : String → Except Fault (Option ProjectConfig)} (file specifier : String) :
    Tells (fun m => m.answer d root) answer'
      (resolveByNearest (nearest d root) root index file specifier)
      (resolveByNearest answer' root index file specifier) := by
  unfold resolveByNearest
  split
  · exact Tells.pure _
  · split
    · exact Tells.pure _
    · refine Tells.bind (tells_nearest file) fun config _ => ?_
      cases config with
      | none => exact Tells.pure _
      | some config => exact Tells.lift _

end ConfigMemory

namespace Resolver

variable {r : Resolver}

theorem resolve_eq (r : Resolver) : r.resolve = r.resolveVia ({} : ConfigMemory).answer := by
  rw [ConfigMemory.answer_new]
  rfl

theorem resolveVia_congr {m m' : ConfigMemory}
    (h : ∀ d root, r.project = some (d, root) → m'.answer d root = m.answer d root) :
    r.resolveVia m'.answer = r.resolveVia m.answer := by
  funext file specifier
  unfold resolveVia
  split
  · rfl
  · split
    · rfl
    · rename_i d root hproject
      rw [h d root hproject]

/-- A resolver that remembers configurations resolves as its memory answers: `resolveRemembering`
agrees with `resolveVia`. -/
theorem tells_resolveRemembering {resolved : String → String → Except Fault (Option String)}
    (file specifier : String) :
    Tells (fun m : ConfigMemory => r.resolveVia m.answer) resolved
      (r.resolveRemembering file specifier) (resolved file specifier) := by
  rintro m rfl
  obtain ⟨m', hrun, hanswer⟩ : ∃ m', (r.resolveRemembering file specifier).on m =
      (r.resolveVia m.answer file specifier, m') ∧
      ∀ d root, r.project = some (d, root) → m'.answer d root = m.answer d root := by
    unfold resolveRemembering resolveVia
    split
    · exact ⟨m, rfl, fun _ _ _ => rfl⟩
    · split
      · exact ⟨m, rfl, fun _ _ _ => rfl⟩
      · rename_i d root hproject
        obtain ⟨m', hrun, hm'⟩ :=
          ConfigMemory.tells_resolveByNearest d root r.index file specifier m rfl
        refine ⟨m', ?_, fun d' root' hproject' => ?_⟩
        · rw [ExceptT.on_bind, hrun]
          cases resolveByNearest (m.answer d root) root r.index file specifier <;> rfl
        · cases hproject.symm.trans hproject'
          exact hm'
  exact ⟨m', hrun, resolveVia_congr hanswer⟩

end Resolver

end PageReach
