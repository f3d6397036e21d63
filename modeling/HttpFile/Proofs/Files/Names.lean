import HttpFile.Files.Tree
import HttpFile.Proofs.Text.Order

/-!
# `HttpFile.Proofs.Files.Names` — the names in a folder

A tree lists its entries by location. If it lists no location twice, a folder holds each of its names
once, and gives them in their order.

## Contents
- **Trees.** `Tree.IsDistinct`: no location is listed twice; `Tree.IsDistinct.put`.
- **Names.** `pairwise_namesAt`, `pairwise_names`.
-/

namespace HttpFile.Files.Tree

open Text

/-- No location is listed twice, as in any tree of files: what stands at a location is one thing. -/
def IsDistinct (t : Tree) : Prop := (t.entries.map Prod.fst).Nodup

instance (t : Tree) : Decidable t.IsDistinct := inferInstanceAs (Decidable (List.Nodup _))

/-- Putting an entry at a location keeps a tree so. -/
theorem IsDistinct.put {t : Tree} (h : t.IsDistinct) (l : Location) (e : Entry) : (t.put l e).IsDistinct := by
  unfold Tree.put
  split
  · have hkeys : (t.entries.map fun x : Location × Entry => if x.1 = l then (x.1, e) else x).map Prod.fst =
        t.entries.map Prod.fst := by
      rw [List.map_map]
      refine List.map_congr_left fun x _ => ?_
      show (if x.1 = l then (x.1, e) else x).1 = x.1
      split <;> rfl
    show ((t.entries.map fun x : Location × Entry => if x.1 = l then (x.1, e) else x).map Prod.fst).Nodup
    rw [hkeys]
    exact h
  · next hnone =>
      have hnew : l ∉ t.entries.map Prod.fst := by
        rw [Option.not_isSome_iff_eq_none, List.lookup_eq_none_iff] at hnone
        intro hl
        obtain ⟨x, hx, rfl⟩ := List.mem_map.mp hl
        simpa using hnone x hx
      show ((t.entries ++ [(l, e)]).map Prod.fst).Nodup
      rw [List.map_append]
      refine List.nodup_append.mpr ⟨h, List.nodup_singleton l, ?_⟩
      rintro k hk m hm rfl
      obtain rfl : k = l := List.mem_singleton.mp hm
      exact hnew hk

/-- A name behind the location of its folder is the location of its entry. -/
theorem nodup_lastParts {ls : List Location} (h : ls.Nodup) (folder : Location) :
    (ls.filterMap fun l => if l.dropLast = folder then l.getLast? else none).Nodup := by
  refine h.filterMap fun l l' name hl hl' => ?_
  have hlocation : ∀ l : Location, (name ∈ if l.dropLast = folder then l.getLast? else none) →
      l = folder ++ [name] := by
    intro l hl
    split at hl
    · next hfolder =>
        rw [← hfolder]
        exact (List.dropLast_append_getLast? name hl).symm
    · simp at hl
  rw [hlocation l hl, hlocation l' hl']

/-- The names at the location of a folder are in their order, each there once. -/
theorem pairwise_namesAt {t : Tree} (ht : t.IsDistinct) (folder : Location) :
    (t.namesAt folder).Pairwise ComesBefore := by
  have hnames := nodup_lastParts ht folder
  refine pairwise_mergeSort_precedes ?_
  simpa [List.filterMap_map] using hnames

/-- **A folder gives its names in their order, each once.** -/
theorem pairwise_names {t : Tree} (ht : t.IsDistinct) {p : Path} {names : List Text}
    (h : t.names p = .ok names) : names.Pairwise ComesBefore := by
  unfold Tree.names at h
  split at h
  · obtain rfl := Except.ok.inj h
    exact pairwise_namesAt ht _
  all_goals cases h

end HttpFile.Files.Tree
