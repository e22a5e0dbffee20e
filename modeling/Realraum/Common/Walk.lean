import Mathlib.Data.List.Chain
import Mathlib.Data.List.Nodup
import Mathlib.Data.List.Perm.Subperm
import Mathlib.Logic.Relation
/-!
# Walks along a relation

A walk is a list in which each thing is related to the next. Where the
relation has no cycle, a walk does not come back to where it was, and where
only finitely many things are related to another at all, it is no longer
than there are of these.
-/

namespace Realraum

namespace Walk

open Relation

variable {α β : Type*} {r : α → α → Prop} {a : α} {l : List α}

/-- **A walk without cycles does not come back.** -/
theorem nodup (h : (a :: l).IsChain r)
    (hacyclic : ∀ x, ReflTransGen r a x → ¬ TransGen r x x) : (a :: l).Nodup := by
  have hpairs : (a :: l).Pairwise (TransGen r) :=
    List.isChain_iff_pairwise.mp (h.imp fun _ _ hr => .single hr)
  have hreach : ∀ x ∈ a :: l, ReflTransGen r a x := by
    intro x hx
    rcases List.mem_cons.mp hx with rfl | hx
    · exact .refl
    · exact ((List.pairwise_cons.mp hpairs).1 x hx).to_reflTransGen
  refine hpairs.imp_of_mem fun {x y} hx _ hxy heq => ?_
  subst heq
  exact hacyclic x (hreach x hx) hxy

/-- All but the last go on. -/
theorem exists_next (h : l.IsChain r) : ∀ x ∈ l.dropLast, ∃ y, r x y := by
  induction l with
  | nil => exact nofun
  | cons a l ih =>
      cases l with
      | nil => exact nofun
      | cons b l =>
          obtain ⟨hab, hrest⟩ := List.isChain_cons_cons.mp h
          rw [List.dropLast_cons_cons, List.forall_mem_cons]
          exact ⟨⟨b, hab⟩, ih hrest⟩

/-- **Distinct things with a key of their own** are at most as many as there
are keys. -/
theorem length_le (key : α → Option β) {keys : List β} (hl : l.Nodup)
    (hkey : ∀ x ∈ l, ∃ k ∈ keys, key x = some k)
    (hown : ∀ x y k, key x = some k → key y = some k → x = y) : l.length ≤ keys.length := by
  have hnodup : (l.map key).Nodup := by
    refine hl.map_on fun x hx y _ hxy => ?_
    obtain ⟨k, -, hk⟩ := hkey x hx
    exact hown x y k hk (hxy ▸ hk)
  have hsub : l.map key ⊆ keys.map some := by
    intro o ho
    obtain ⟨x, hx, rfl⟩ := List.mem_map.mp ho
    obtain ⟨k, hmem, hk⟩ := hkey x hx
    rw [hk]
    exact List.mem_map_of_mem hmem
  have hlen := (List.subperm_of_subset hnodup hsub).length_le
  rwa [List.length_map, List.length_map] at hlen

end Walk

end Realraum
