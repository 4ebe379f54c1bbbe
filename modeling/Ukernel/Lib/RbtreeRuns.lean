import Ukernel.Machine.System
import Ukernel.Lib.RbtreeDelete

/-!
# Red-black trees over whole runs

Every run of insertions of fresh nodes and deletions of members keeps the red-black invariant, the
order and the parent pointers.

## Main definitions

* `RbTree.treeSystem`: insertion of fresh nodes and deletion of members

## Main results

* `RbTree.run_redBlack`: the invariant over whole runs
-/

namespace Ukernel.Lib

namespace RbTree

variable {t : Tree Nat}

/-- A tree with the nodes that are in it. -/
structure History where
  tree : RbTree
  nodes : List Nat

/-- What the users of a tree do. -/
inductive Op where
  | insert (node : Nat)
  | delete (node : Nat)

/-- One operation; no result stands for a loop that has not ended. -/
def History.exec (fuel : Nat) (cmp : Nat → Nat → Int) (h : History) : Op → Option History
  | .insert node => (rbtreeInsert fuel cmp h.tree node).map (⟨·, node :: h.nodes⟩)
  | .delete node => (rbtreeDelete fuel h.tree node).map (⟨·, h.nodes.erase node⟩)

/-- Fresh nodes are inserted and members are deleted. -/
def History.Enabled (h : History) : Op → Prop
  | .insert node => node ≠ 0 ∧ node ≠ h.tree.nil ∧ node ∉ h.nodes
  | .delete node => node ∈ h.nodes

/-- Runs of a tree. -/
def treeSystem (fuel : Nat) (cmp : Nat → Nat → Int) : Machine.System (Option History) Op where
  exec s op := s.bind fun h => h.exec fuel cmp op
  enabled s op := ∀ h, s = some h → h.Enabled op

/-- The invariant: the memory is a red-black tree whose labels are the nodes, in order. -/
structure HistoryInv (cmp : Nat → Nat → Int) (h : History) (t : Tree Nat) : Prop where
  represents : h.tree.Represents t
  balanced : ∃ m, Balanced t .black m
  sorted : t.toList.Pairwise (Le cmp)
  nodes : t.toList.Perm h.nodes
  nonnull : ∀ x ∈ h.nodes, x ≠ 0

theorem HistoryInv.exec {cmp : Nat → Nat → Int} (hcmp : TotalPreorder cmp) (fuel : Nat)
    {h : History} (hinv : HistoryInv cmp h t) (hfuel : h.nodes.length < fuel) {op : Op}
    (hen : h.Enabled op) :
    ∃ h' t', h.exec fuel cmp op = some h' ∧ HistoryInv cmp h' t' ∧
      h'.nodes.length ≤ h.nodes.length + 1 := by
  obtain ⟨m, hbal⟩ := hinv.balanced
  have hlen : t.toList.length < fuel := by rwa [hinv.nodes.length_eq]
  cases op with
  | insert node =>
    obtain ⟨hnull, hnil, hfresh⟩ := hen
    obtain ⟨s', t', hs', hrep, hm, hsorted, hperm, -⟩ := rbtreeInsert_spec hcmp hinv.represents hbal
      hinv.sorted (fun hx => hfresh (hinv.nodes.subset hx)) hnil hnull hlen
    refine ⟨⟨s', node :: h.nodes⟩, t', ?_, ⟨hrep, hm, hsorted, ?_, ?_⟩, Nat.le_refl _⟩
    · rw [History.exec, hs']
      rfl
    · exact hperm.trans (hinv.nodes.cons node)
    · grind [hinv.nonnull]
  | delete node =>
    have hmem : node ∈ t.toList := hinv.nodes.symm.subset hen
    obtain ⟨s', t', hs', hrep, hm, hsub, hperm, -⟩ := rbtreeDelete_spec hinv.represents hbal hmem
      (hinv.nonnull node hen) hlen
    refine ⟨⟨s', h.nodes.erase node⟩, t', ?_, ⟨hrep, hm, hinv.sorted.sublist hsub, ?_, ?_⟩, ?_⟩
    · rw [History.exec, hs']
      rfl
    · grind [hinv.nodes]
    · exact fun x hx => hinv.nonnull x (List.mem_of_mem_erase hx)
    · exact Nat.le_trans List.length_erase_le (Nat.le_succ _)

theorem HistoryInv.run {cmp : Nat → Nat → Int} (hcmp : TotalPreorder cmp) {fuel : Nat}
    (ops : List Op) {h : History} (hinv : HistoryInv cmp h t)
    (hfuel : h.nodes.length + ops.length < fuel)
    (hops : (treeSystem fuel cmp).Legal (some h) ops) :
    ∃ h' t', (treeSystem fuel cmp).run (some h) ops = some h' ∧ HistoryInv cmp h' t' ∧
      h'.nodes.length ≤ h.nodes.length + ops.length := by
  induction ops generalizing h t with
  | nil => exact ⟨h, t, rfl, hinv, Nat.le_refl _⟩
  | cons op ops ih =>
    simp only [List.length_cons] at hfuel
    obtain ⟨h₁, t₁, hexec, hinv₁, hlen⟩ := hinv.exec hcmp fuel (by omega) (hops.1 h rfl)
    have hstep : (treeSystem fuel cmp).exec (some h) op = some h₁ := hexec
    have hrest := hops.2
    rw [hstep] at hrest
    rw [Machine.System.run_cons, hstep, List.length_cons]
    obtain ⟨h', t', hrun, hinv', hle⟩ := ih hinv₁ (by omega) hrest
    exact ⟨h', t', hrun, hinv', by omega⟩

/-- A tree that `rbtree_create` returns is empty. -/
theorem historyInv_create (cmp : Nat → Nat → Int) (mem : Nat → RbNode) (nil : Nat) :
    HistoryInv cmp ⟨rbtreeCreate mem nil, []⟩ .nil := by
  refine ⟨⟨⟨rfl, trivial, by simp [plug]⟩, ?_⟩, ⟨0, .nil⟩, by simp, by simp, by simp⟩
  change (Function.update mem nil _ nil).col = _
  rw [Function.update_self]

/-- From `rbtree_create` on, over every run of insertions of fresh nodes and deletions of members
under a total preorder, every operation returns and the memory is a red-black tree: its root and
its sentinel are black, no red node has a red child, all paths have the same number of black
nodes, its nodes are in order, and the parent pointers match the child pointers, with the sentinel
as the parent of the root. -/
theorem run_redBlack (cmp : Nat → Nat → Int) (hcmp : TotalPreorder cmp) (mem : Nat → RbNode)
    (nil : Nat) (ops : List Op) (fuel : Nat) (hfuel : ops.length < fuel)
    (hops : (treeSystem fuel cmp).Legal (some ⟨rbtreeCreate mem nil, []⟩) ops) :
    ∃ h t m, (treeSystem fuel cmp).run (some ⟨rbtreeCreate mem nil, []⟩) ops = some h ∧
      h.tree.root = h.tree.ptr t ∧ h.tree.TreeAt t h.tree.nil ∧
      (h.tree.mem h.tree.nil).col = .black ∧ Balanced t .black m ∧
      t.toList.Pairwise (Le cmp) ∧ t.toList.Nodup ∧ t.toList.Perm h.nodes := by
  obtain ⟨h, t, hrun, hinv, -⟩ :=
    (historyInv_create cmp mem nil).run hcmp ops (by simpa using hfuel) hops
  obtain ⟨m, hbal⟩ := hinv.balanced
  have hlaid := hinv.represents.laid
  exact ⟨h, t, m, hrun, hlaid.ctx, hlaid.tree, hinv.represents.nilCol, hbal, hinv.sorted,
    hlaid.nodup, hinv.nodes⟩

/-- Two insertions and a deletion, ordered by address. -/
theorem run_redBlack_three :
    ∃ h t m, (treeSystem 4 fun a b => a - b).run
        (some ⟨rbtreeCreate (fun _ => ⟨.red, 0, 0, 0⟩) 100, []⟩)
        [.insert 7, .insert 5, .delete 7] = some h ∧
      h.tree.TreeAt t h.tree.nil ∧ Balanced t .black m := by
  have hcmp : TotalPreorder fun a b : Nat => (a : Int) - b :=
    ⟨fun a b => by simp only [Le]; omega, fun a b c => by simp only [Le]; omega⟩
  have hops : (treeSystem 4 fun a b => (a : Int) - b).Legal
      (some ⟨rbtreeCreate (fun _ => ⟨.red, 0, 0, 0⟩) 100, []⟩)
      [.insert 7, .insert 5, .delete 7] := by
    refine ⟨?_, ?_, ?_, trivial⟩
    · rintro h ⟨⟩
      exact ⟨by decide, by decide, by decide⟩
    · rintro h ⟨⟩
      exact ⟨by decide, by decide, by decide⟩
    · rintro h ⟨⟩
      change 7 ∈ _
      decide
  obtain ⟨h, t, m, hrun, -, htree, -, hbal, -⟩ := run_redBlack _ hcmp (fun _ => ⟨.red, 0, 0, 0⟩) 100
    [.insert 7, .insert 5, .delete 7] 4 (by decide) hops
  exact ⟨h, t, m, hrun, htree, hbal⟩

end RbTree

end Ukernel.Lib
