import VirtualModules.Proofs.Snapshots
import VirtualModules.Snapshot.Document

/-!
# Accepted snapshots

A snapshot is accepted if its modules were, or the text of its document was; a table of descendants
may be put on top (`Snapshot.Accepted`). What a document describes is built module by module like
any other snapshot (`built_ofText`), so every accepted snapshot is `Snapshot.Built`.
-/

namespace VirtualModules

namespace Snapshot

/-- The snapshot was made of modules or of a document, with or without a table of descendants on
top. -/
inductive Accepted : Snapshot → Prop where
  | ofModules {apps : List String} {modules : List SourceModule} {s : Snapshot}
      (h : ofModules apps modules = .ok s) : Accepted s
  | ofText {text : String} {s : Snapshot} (h : ofText text = .ok s) : Accepted s
  | withExplicit {s : Snapshot} (h : Accepted s) (table : DescendantTable) :
      Accepted (s.withExplicit table)

theorem built_ofDocument {d : SnapshotDocument} {s : Snapshot} (h : ofDocument d = .ok s) :
    s.Built := by
  rw [ofDocument, bind_eq_ok_iff] at h
  obtain ⟨modules, -, h⟩ := h
  rw [bind_eq_ok_iff] at h
  obtain ⟨base, built, done⟩ := h
  cases done
  exact ⟨d.installedApps, modules, base, d.explicit, built, rfl⟩

theorem built_ofText {text : String} {s : Snapshot} (h : ofText text = .ok s) : s.Built := by
  unfold ofText at h
  split at h
  · exact built_ofDocument h
  · cases h

theorem Accepted.built {s : Snapshot} (h : s.Accepted) : s.Built := by
  induction h with
  | ofModules h => exact .ofModules h
  | ofText h => exact built_ofText h
  | withExplicit h table ih =>
    obtain ⟨apps, modules, base, -, built, rfl⟩ := ih
    exact ⟨apps, modules, base, some table, built, rfl⟩

end Snapshot

end VirtualModules
