import PageReach.Module.Resolver
import PageReach.Proofs.Fault
import PageReach.Proofs.Files.Lookup

/-!
# Specifiers lead to indexed files

Whatever strategy finds a file for a specifier (`mem_of_resolveByNearest`,
`mem_of_resolveByAliases`), or the entry of a page (`FileIndex.mem_of_locate`), it looks the file up
in the index. So nothing outside of the index is ever reached (`mem_of_resolveVia`).
-/

namespace PageReach

variable {index : FileIndex} {file specifier target : String}

theorem FileIndex.mem_of_shortest {files : List String} (h : shortest? files = some target) :
    target ∈ files := by
  have hfold (gs : List String) (best : String) :
      gs.foldl (fun best g => if shorter g best then g else best) best ∈ best :: gs := by
    induction gs generalizing best with
    | nil => exact List.mem_cons_self
    | cons g gs ih =>
        rw [List.foldl_cons]
        split
        · exact List.mem_cons_of_mem _ (ih g)
        · rcases List.mem_cons.mp (ih best) with h | h
          · rw [h]
            exact List.mem_cons_self
          · exact List.mem_cons_of_mem _ (List.mem_cons_of_mem _ h)
  cases files with
  | nil => exact nomatch h
  | cons f fs =>
      rw [← Option.some.inj h]
      exact hfold fs f

/-- The entry of a page, which `locate` finds, is an indexed file. -/
theorem FileIndex.mem_of_locate {path : String} (h : index.locate path = some target) :
    target ∈ index.files := by
  unfold locate at h
  split at h
  · exact nomatch h
  · split at h
    · rename_i hmem
      cases h
      exact List.contains_iff_mem.mp hmem
    · rcases Option.or_eq_some_iff.mp h with h | ⟨-, h⟩
      · rcases Option.or_eq_some_iff.mp h with h | ⟨-, h⟩
        · obtain ⟨root, -, hroot⟩ := List.exists_of_findSome?_eq_some h
          exact mem_of_lookup hroot
        · obtain ⟨front, -, hfront⟩ := List.exists_of_findSome?_eq_some h
          exact (List.mem_filter.mp (mem_of_shortest hfront)).1
      · exact mem_of_lookup h

namespace ProjectConfig

theorem mem_of_lookupAbsolute {root path : String}
    (h : lookupAbsolute index root path = some target) : target ∈ index.files := by
  unfold lookupAbsolute at h
  split at h
  · exact nomatch h
  · dsimp only at h
    split at h
    · split at h
      · exact nomatch h
      · exact FileIndex.mem_of_lookup h
    · exact nomatch h

theorem mem_of_firstTarget {root : String} {directory : Value} {targets : List Value}
    (h : firstTarget index root directory targets = .ok (some target)) : target ∈ index.files := by
  induction targets with
  | nil => exact nomatch h
  | cons t targets ih =>
      unfold firstTarget at h
      split at h
      · split at h
        · rename_i hlookup
          cases h
          exact mem_of_lookupAbsolute hlookup
        · exact ih h
      · exact nomatch h
      · exact nomatch h

/-- What has not been found by a pattern is looked up below the base directory. -/
theorem mem_of_base {root : String} {byPattern : Option String} {base? : Option Value}
    (h : (match byPattern, base? with
      | some file, _ => pure (some file)
      | none, none => pure none
      | none, some (.text base) => pure (lookupAbsolute index root (Path.join base specifier))
      | none, some _ => .error .baseNotText : Except Fault (Option String)) = .ok (some target))
    (hpattern : ∀ t, byPattern = some t → t ∈ index.files) : target ∈ index.files := by
  split at h
  · exact hpattern _ (Except.ok.inj h)
  · exact nomatch h
  · exact mem_of_lookupAbsolute (Except.ok.inj h)
  · exact nomatch h

theorem mem_of_resolve {c : ProjectConfig} {root : String}
    (h : c.resolve index root specifier = .ok (some target)) : target ∈ index.files := by
  unfold resolve at h
  split at h
  · exact mem_of_base h nofun
  · obtain ⟨values, -, htargets⟩ := exists_ok_of_bind h
    obtain ⟨byPattern, hfirst, hrest⟩ := exists_ok_of_bind htargets
    exact mem_of_base hrest fun t ht => mem_of_firstTarget (ht ▸ hfirst)

end ProjectConfig

theorem mem_of_resolveByNearest {nearest : String → Except Fault (Option ProjectConfig)}
    {root : String} (h : resolveByNearest nearest root index file specifier = .ok (some target)) :
    target ∈ index.files := by
  unfold resolveByNearest at h
  split at h
  · exact nomatch h
  · split at h
    · exact FileIndex.mem_of_lookup (Except.ok.inj h)
    · obtain ⟨config, -, hconfig⟩ := exists_ok_of_bind h
      cases config with
      | none => exact nomatch hconfig
      | some config => exact ProjectConfig.mem_of_resolve hconfig

namespace Resolver

variable {r : Resolver}

theorem mem_of_belowBase {path : String} (h : r.belowBase path = some target) :
    target ∈ r.index.files := by
  obtain ⟨base, -, hb⟩ := Option.bind_eq_some_iff.mp h
  exact FileIndex.mem_of_lookup hb

theorem mem_of_resolveByAliases (h : r.resolveByAliases file specifier = some target) :
    target ∈ r.index.files := by
  unfold resolveByAliases at h
  split at h
  · exact FileIndex.mem_of_lookup h
  · split at h
    · rcases Option.or_eq_some_iff.mp h with h | ⟨-, h⟩
      · exact mem_of_belowBase h
      · obtain ⟨root, -, hroot⟩ := List.exists_of_findSome?_eq_some h
        exact FileIndex.mem_of_lookup hroot
    · rcases Option.or_eq_some_iff.mp h with h | ⟨-, h⟩
      · obtain ⟨t, -, ht⟩ := List.exists_of_findSome?_eq_some h
        exact FileIndex.mem_of_lookup ht
      · exact mem_of_belowBase h

/-- **A specifier leads to an indexed file or nowhere**, whatever configurations `nearest` finds. -/
theorem mem_of_resolveVia {nearest : Disk → String → String → Except Fault (Option ProjectConfig)}
    (h : r.resolveVia nearest file specifier = .ok (some target)) : target ∈ r.index.files := by
  unfold resolveVia at h
  split at h
  · exact nomatch h
  · dsimp only at h
    split at h
    · exact mem_of_resolveByAliases (Except.ok.inj h)
    · obtain ⟨nearest, hnearest, hrest⟩ := exists_ok_of_bind h
      rcases Option.or_eq_some_iff.mp (Except.ok.inj hrest) with rfl | ⟨-, ha⟩
      · exact mem_of_resolveByNearest hnearest
      · exact mem_of_resolveByAliases ha

end Resolver

end PageReach
