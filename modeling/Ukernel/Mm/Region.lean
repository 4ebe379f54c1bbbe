import Ukernel.Arch.Paging
import Ukernel.Lib.RbtreeIter
import Mathlib.Data.List.Perm.Subperm

/-!
# The regions of an address space

An address space keeps its regions in a red-black tree that orders them by their start. The tree
knows its nodes by address; a node lies inside the record of its region.

The model's loops over a tree take fuel. A tree that `Vcb.Ok` describes has fewer nodes than the
heap has handed out blocks, so that with this much fuel every loop ends.

## Main definitions

* `VmmRegion`, `Vcb`: `vmm_region` and `vmm_control_block`
* `Vcb.regions`: the regions in the order in which a loop visits them
* `Vcb.insert`, `Vcb.delete`: a region enters or leaves the tree
* `Vcb.Ok`: the tree is sound

## Main results

* `Vcb.Ok.insert`, `Vcb.Ok.delete`: what the two operations do to the regions
-/

namespace Ukernel.Mm

open Lib Lib.RbTree

/-- `vmm_region`. -/
structure VmmRegion where
  startVa : Nat
  size : Nat
  flags : Nat
  pa : Nat
  ownPhys : Bool
  deriving DecidableEq, Repr

namespace VmmRegion

/-- The address after the region, in 32 bits. -/
def limit (r : VmmRegion) : Nat := (r.startVa + r.size) % 2 ^ 32

/-- The test of the source for an address inside the region. -/
def contains (r : VmmRegion) (va : Nat) : Bool := decide (r.startVa ≤ va) && decide (va < r.limit)

end VmmRegion

/-- `vmm_rbtree_node_cmp`; the tree compares its nodes, which are not null. -/
def vmmRbtreeNodeCmp (region : Nat → VmmRegion) (left right : Nat) : Int :=
  if (region left).startVa < (region right).startVa then -1
  else if (region left).startVa > (region right).startVa then 1
  else 0

/-- `vmm_rbtree_key_cmp`. -/
def vmmRbtreeKeyCmp (region : Nat → VmmRegion) (key node : Nat) : Int :=
  if node = 0 ∨ key = 0 then -1
  else if (region node).contains key then 0
  else if key < (region node).startVa then -1
  else 1

/-- `vmm_control_block`, with the records of the regions and the block of the tree. -/
structure Vcb where
  tree : RbTree
  treeAddr : Nat
  region : Nat → VmmRegion
  cr3 : Nat
  lock : Nat

namespace Vcb

/-- The nodes that `rbtree_for_each` visits. -/
def nodes (fuel : Nat) (v : Vcb) : List Nat := (rbtreeForEach fuel v.tree).getD []

/-- The regions that a loop over the tree visits. -/
def regions (fuel : Nat) (v : Vcb) : List VmmRegion := (v.nodes fuel).map v.region

/-- The node of the first region that satisfies a test. -/
def find (fuel : Nat) (v : Vcb) (p : VmmRegion → Bool) : Option Nat :=
  (v.nodes fuel).find? fun n => p (v.region n)

/-- Fill the record at `node` and insert it. -/
def insert (fuel : Nat) (v : Vcb) (node : Nat) (r : VmmRegion) : Vcb :=
  let region := Function.update v.region node r
  { v with
    region
    tree := (rbtreeInsert fuel (vmmRbtreeNodeCmp region) v.tree node).getD v.tree }

/-- `rbtree_delete`. -/
def delete (fuel : Nat) (v : Vcb) (node : Nat) : Vcb :=
  { v with tree := (rbtreeDelete fuel v.tree node).getD v.tree }

/-- The tree holds the nodes `ns`, blocks with names up to `b`, in the order of their regions. -/
structure Shows (b : Nat) (v : Vcb) (ns : List Nat) : Prop where
  tree : ∃ t, v.tree.Represents t ∧ (∃ m, Balanced t .black m) ∧ t.toList = ns
  sorted : ns.Pairwise (Le (vmmRbtreeNodeCmp v.region))
  name : ∀ n ∈ ns, 0 < n ∧ n ≤ b
  nil_le : v.tree.nil ≤ b

/-- The tree is sound. -/
def Ok (b : Nat) (v : Vcb) : Prop := ∃ ns, Shows b v ns

variable {b fuel : Nat} {v : Vcb} {ns : List Nat}

theorem le_vmmRbtreeNodeCmp {region : Nat → VmmRegion} {m n : Nat} :
    Le (vmmRbtreeNodeCmp region) m n ↔ (region m).startVa ≤ (region n).startVa := by
  unfold Le vmmRbtreeNodeCmp
  split_ifs with h₁ h₂
  · omega
  · omega
  · omega

theorem totalPreorder_vmmRbtreeNodeCmp (region : Nat → VmmRegion) :
    TotalPreorder (vmmRbtreeNodeCmp region) where
  total m n := by
    rw [le_vmmRbtreeNodeCmp, le_vmmRbtreeNodeCmp]
    exact Nat.le_total _ _
  trans l m n := by
    rw [le_vmmRbtreeNodeCmp, le_vmmRbtreeNodeCmp, le_vmmRbtreeNodeCmp]
    exact Nat.le_trans

namespace Shows

variable (h : Shows b v ns)

include h

theorem nodup : ns.Nodup := by
  obtain ⟨t, ht, -, rfl⟩ := h.tree
  exact ht.laid.nodup

theorem length_le : ns.length ≤ b := by
  have hsub : ns ⊆ List.range' 1 b := fun n hn => by
    have := h.name n hn
    rw [List.mem_range'_1]
    omega
  simpa using (List.subperm_of_subset h.nodup hsub).length_le

theorem nodes_eq (hfuel : b < fuel) : v.nodes fuel = ns := by
  obtain ⟨t, ht, -, rfl⟩ := h.tree
  unfold nodes
  rw [rbtreeForEach_eq ht (fun n hn => Nat.pos_iff_ne_zero.mp (h.name n hn).1)
    (Nat.lt_of_le_of_lt h.length_le hfuel)]
  rfl

theorem regions_eq (hfuel : b < fuel) : v.regions fuel = ns.map v.region := by
  rw [regions, h.nodes_eq hfuel]

theorem insert {node b' : Nat} (r : VmmRegion) (hnode : b < node) (hb : node ≤ b')
    (hfuel : b < fuel) :
    ∃ ns', Shows b' (v.insert fuel node r) ns' ∧ ns'.Perm (node :: ns) ∧
      (v.insert fuel node r).tree.nil = v.tree.nil := by
  obtain ⟨t, ht, ⟨m, hbal⟩, rfl⟩ := h.tree
  have hnew : node ∉ t.toList := fun hn => by
    have := (h.name node hn).2
    omega
  -- the record of the new node is not one that the order has looked at
  have hsame {n : Nat} (hn : n ∈ t.toList) : Function.update v.region node r n = v.region n := by
    grind
  have hsorted : t.toList.Pairwise (Le (vmmRbtreeNodeCmp (Function.update v.region node r))) := by
    grind [h.sorted.imp_of_mem, le_vmmRbtreeNodeCmp]
  have hnil := h.nil_le
  obtain ⟨s', t', heq, ht', hbal', hsorted', hperm, hnil'⟩ := rbtreeInsert_spec
    (totalPreorder_vmmRbtreeNodeCmp (Function.update v.region node r)) ht hbal hsorted hnew
    (by omega) (by omega) (Nat.lt_of_le_of_lt h.length_le hfuel)
  have htree : (v.insert fuel node r).tree = s' := by
    simp only [Vcb.insert, heq, Option.getD_some]
  refine ⟨t'.toList, ⟨⟨t', by rwa [htree], hbal', rfl⟩, hsorted', ?_, ?_⟩, hperm,
    by rw [htree, hnil']⟩
  · intro n hn
    rcases List.mem_cons.mp (hperm.mem_iff.mp hn) with rfl | hn
    · omega
    · have := h.name n hn
      omega
  · rw [htree, hnil']
    omega

theorem delete {node : Nat} (hnode : node ∈ ns) (hfuel : b < fuel) :
    ∃ ns', Shows b (v.delete fuel node) ns' ∧ ns.Perm (node :: ns') ∧ ns'.Sublist ns ∧
      (v.delete fuel node).tree.nil = v.tree.nil := by
  obtain ⟨t, ht, ⟨m, hbal⟩, rfl⟩ := h.tree
  obtain ⟨s', t', heq, ht', hbal', hsub, hperm, hnil'⟩ := rbtreeDelete_spec ht hbal hnode
    (Nat.pos_iff_ne_zero.mp (h.name node hnode).1) (Nat.lt_of_le_of_lt h.length_le hfuel)
  have htree : (v.delete fuel node).tree = s' := by
    unfold Vcb.delete
    rw [heq]
    rfl
  refine ⟨t'.toList, ⟨⟨t', by rwa [htree], hbal', rfl⟩, h.sorted.sublist hsub,
    fun n hn => h.name n (hsub.subset hn), ?_⟩, hperm, hsub, by rw [htree, hnil']⟩
  rw [htree, hnil']
  exact h.nil_le

end Shows

namespace Ok

section

variable (h : v.Ok b)

include h

theorem mono {b' : Nat} (hb : b ≤ b') : v.Ok b' := by
  obtain ⟨ns, h⟩ := h
  exact ⟨ns, h.tree, h.sorted, fun n hn => ⟨(h.name n hn).1, Nat.le_trans (h.name n hn).2 hb⟩,
    Nat.le_trans h.nil_le hb⟩

/-- The regions do not depend on the fuel. -/
theorem regions_congr {fuel' : Nat} (hfuel : b < fuel) (hfuel' : b < fuel') :
    v.regions fuel' = v.regions fuel := by
  obtain ⟨ns, h⟩ := h
  rw [h.regions_eq hfuel, h.regions_eq hfuel']

theorem sorted (hfuel : b < fuel) :
    (v.regions fuel).Pairwise fun r r' => r.startVa ≤ r'.startVa := by
  obtain ⟨ns, h⟩ := h
  rw [h.regions_eq hfuel, List.pairwise_map]
  exact h.sorted.imp fun hle => le_vmmRbtreeNodeCmp.mp hle

/-- The test of the source for an empty tree. -/
theorem root_eq_nil_iff (hfuel : b < fuel) :
    v.tree.root = v.tree.nil ↔ v.regions fuel = [] := by
  obtain ⟨ns, h⟩ := h
  rw [h.regions_eq hfuel, List.map_eq_nil_iff]
  obtain ⟨t, ht, -, rfl⟩ := h.tree
  have hroot : v.tree.root = v.tree.ptr t := ht.laid.ctx
  rw [hroot]
  cases t with
  | nil => exact iff_of_true rfl rfl
  | node c l x r => exact iff_of_false ht.laid.tree.1 (by simp)

/-- A new region enters. -/
theorem insert {node b' : Nat} (r : VmmRegion) (hnode : b < node) (hb : node ≤ b')
    (hfuel : b < fuel) : (v.insert fuel node r).Ok b' ∧
      ∀ fuel', b' < fuel' → ((v.insert fuel node r).regions fuel').Perm (r :: v.regions fuel) := by
  obtain ⟨ns, h⟩ := h
  obtain ⟨ns', h', hperm, -⟩ := h.insert r hnode hb hfuel
  refine ⟨⟨ns', h'⟩, fun fuel' hfuel' => ?_⟩
  rw [h'.regions_eq hfuel', h.regions_eq hfuel]
  refine (hperm.map _).trans (List.Perm.of_eq ?_)
  refine congrArg₂ _ (Function.update_self _ _ _) (List.map_congr_left fun n hn => ?_)
  refine Function.update_of_ne (fun heq => ?_) _ _
  have := (h.name n hn).2
  omega

/-- The nodes after a region has entered. -/
theorem insert_nodes {node b' fuel' : Nat} (r : VmmRegion) (hnode : b < node) (hb : node ≤ b')
    (hfuel : b < fuel) (hfuel' : b' < fuel') :
    ((v.insert fuel node r).nodes fuel').Perm (node :: v.nodes fuel) ∧
      (v.insert fuel node r).tree.nil = v.tree.nil := by
  obtain ⟨ns, h⟩ := h
  obtain ⟨ns', h', hperm, hnil⟩ := h.insert r hnode hb hfuel
  rw [h'.nodes_eq hfuel', h.nodes_eq hfuel]
  exact ⟨hperm, hnil⟩

end

theorem find_none {p : VmmRegion → Bool} (hf : v.find fuel p = none) {r : VmmRegion}
    (hr : r ∈ v.regions fuel) : p r = false := by
  obtain ⟨n, hn, rfl⟩ := List.mem_map.mp hr
  exact eq_false_of_ne_true (List.find?_eq_none.mp hf n hn)

theorem find_some {p : VmmRegion → Bool} {n : Nat} (hf : v.find fuel p = some n) :
    n ∈ v.nodes fuel ∧ v.region n ∈ v.regions fuel ∧ p (v.region n) = true :=
  ⟨List.mem_of_find?_eq_some hf, List.mem_map_of_mem (List.mem_of_find?_eq_some hf),
    List.find?_some (p := fun n => p (v.region n)) hf⟩

variable (h : v.Ok b)

include h

/-- A region leaves. -/
theorem delete {n : Nat} (hn : n ∈ v.nodes fuel) (hfuel : b < fuel) :
    (v.delete fuel n).Ok b ∧ ∀ fuel', b < fuel' →
      (v.regions fuel).Perm (v.region n :: (v.delete fuel n).regions fuel') := by
  obtain ⟨ns, h⟩ := h
  rw [h.nodes_eq hfuel] at hn
  obtain ⟨ns', h', hperm, -⟩ := h.delete hn hfuel
  refine ⟨⟨ns', h'⟩, fun fuel' hfuel' => ?_⟩
  rw [h'.regions_eq hfuel', h.regions_eq hfuel]
  exact hperm.map _

/-- The nodes after a region has left. -/
theorem delete_nodes {n : Nat} (hn : n ∈ v.nodes fuel) (hfuel : b < fuel) :
    (v.nodes fuel).Perm (n :: (v.delete fuel n).nodes fuel) ∧
      (v.delete fuel n).tree.nil = v.tree.nil := by
  obtain ⟨ns, h⟩ := h
  rw [h.nodes_eq hfuel] at hn ⊢
  obtain ⟨ns', h', hperm, -, hnil⟩ := h.delete hn hfuel
  rw [h'.nodes_eq hfuel]
  exact ⟨hperm, hnil⟩

/-- The nodes do not depend on the fuel. -/
theorem nodes_congr {fuel' : Nat} (hfuel : b < fuel) (hfuel' : b < fuel') :
    v.nodes fuel' = v.nodes fuel := by
  obtain ⟨ns, h⟩ := h
  rw [h.nodes_eq hfuel, h.nodes_eq hfuel']

theorem pos (hfuel : b < fuel) {n : Nat} (hn : n ∈ v.nodes fuel) : 0 < n := by
  obtain ⟨ns, h⟩ := h
  rw [h.nodes_eq hfuel] at hn
  exact (h.name n hn).1

/-- The first node that a loop visits. -/
theorem first (hfuel : b < fuel) :
    rbtreeFirst fuel v.tree = some ((v.nodes fuel).headD 0) := by
  obtain ⟨ns, h⟩ := h
  rw [h.nodes_eq hfuel]
  have hlen := h.length_le
  obtain ⟨t, ht, -, rfl⟩ := h.tree
  exact rbtreeFirst_eq ht (Nat.le_trans hlen (Nat.le_of_lt hfuel))

/-- The node that a loop visits next. -/
theorem next (hfuel : b < fuel) {x : Nat} {ys xs : List Nat} (hx : v.nodes fuel = ys ++ x :: xs) :
    rbtreeNext fuel v.tree x = some (xs.headD 0) := by
  obtain ⟨ns, h⟩ := h
  rw [h.nodes_eq hfuel] at hx
  have hlen := h.length_le
  obtain ⟨t, ht, -, rfl⟩ := h.tree
  exact rbtreeNext_of_toList ht (Nat.lt_of_le_of_lt hlen hfuel) hx

/-- Deleting the first node leaves the others in their order. -/
theorem delete_head (hfuel : b < fuel) {x : Nat} {xs : List Nat} (hx : v.nodes fuel = x :: xs) :
    (v.delete fuel x).nodes fuel = xs := by
  obtain ⟨ns, h⟩ := h
  rw [h.nodes_eq hfuel] at hx
  subst hx
  obtain ⟨ns', h', hperm, hsub, -⟩ := h.delete List.mem_cons_self hfuel
  rw [h'.nodes_eq hfuel]
  have hrest : xs.Perm ns' := hperm.cons_inv
  cases hsub with
  | cons _ hsub => exact hsub.eq_of_length hrest.length_eq.symm
  | cons_cons _ hsub => grind [h.nodup]

/-- What the search of the tree finds contains the key. It finds nothing only if no region does, if
the regions are disjoint. -/
theorem search (hfuel : b < fuel) (key : Nat) :
    ∃ n, rbtreeSearch (vmmRbtreeKeyCmp v.region key) v.tree fuel v.tree.root = some n ∧
      (n ≠ 0 ∧ key ≠ 0 ∧ v.region n ∈ v.regions fuel ∧ (v.region n).contains key = true ∨
        n = 0 ∧ (key ≠ 0 → ((v.regions fuel).Pairwise fun r r' =>
          r.contains key = true ∨ key < r.startVa → r'.contains key = false ∧ key < r'.startVa) →
          ∀ r ∈ v.regions fuel, r.contains key = false)) := by
  obtain ⟨ns, h⟩ := h
  rw [h.regions_eq hfuel]
  have hlen := h.length_le
  have hname := h.name
  obtain ⟨t, ht, -, rfl⟩ := h.tree
  have hroot : v.tree.root = v.tree.ptr t := ht.laid.ctx
  have hcmp {n : Nat} (hn : n ∈ t.toList) : vmmRbtreeKeyCmp v.region key n =
      if key = 0 then -1 else if (v.region n).contains key then 0
      else if key < (v.region n).startVa then -1 else 1 := by
    have hpos := (hname n hn).1
    grind [vmmRbtreeKeyCmp]
  obtain ⟨n, hn, hfound⟩ := rbtreeSearch_spec (vmmRbtreeKeyCmp v.region key) ht.laid.tree
    (Nat.lt_of_le_of_lt hlen hfuel)
  refine ⟨n, hroot ▸ hn, hfound.imp (fun ⟨hmem, hzero⟩ => ?_) fun ⟨hn0, hnone⟩ => ⟨hn0, ?_⟩⟩
  · have hpos := (hname n hmem).1
    rw [hcmp hmem] at hzero
    grind
  · intro hkey hpair
    have horder : t.toList.Pairwise fun m n =>
        vmmRbtreeKeyCmp v.region key m ≤ 0 → vmmRbtreeKeyCmp v.region key n < 0 := by
      refine (List.pairwise_map.mp hpair).imp_of_mem fun {m n} hm hn himp hle => ?_
      have hbefore : (v.region m).contains key = true ∨ key < (v.region m).startVa := by grind
      obtain ⟨h₁, h₂⟩ := himp hbefore
      rw [hcmp hn, if_neg hkey, if_neg (by simp [h₁]), if_pos h₂]
      decide
    grind

end Ok

end Vcb

end Ukernel.Mm
