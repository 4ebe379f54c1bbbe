import Ukernel.Lib.Links
import Ukernel.Machine.Memory
import Mathlib.Data.List.Pairwise

/-!
# Circular doubly linked lists

`kernel/include/lib/list.h`: a node is two words, `prev` at offset 0 and `next` at offset 4, and a
list is a ring of nodes through a head. The nodes live in byte memory, inside the records that
embed them. As long as nodes do not overlap, the operations on memory are those on links, and what
these do to a ring carries over.

## Main definitions

* `listInit`, `listAdd`, `listDel`: the operations of the header
* `Segment`: a path of nodes whose `next` and `prev` words agree
* `HasLinks`: the words of some nodes are their links

## Main results

* `HasLinks.listAdd`, `HasLinks.listDel`: the operations are those on links
* `listAdd_ring`, `listDel_ring`: what the operations do to a ring
* `listAdd_apply`, `listDel_apply`: memory outside the nodes concerned keeps its value
-/

namespace Ukernel.Lib

open Machine

/-- `list_init`. -/
def listInit (m : Memory) (node : Nat) : Memory := store32 (store32 m node node) (node + 4) node

/-- `list_add`: put `new` after `head`. -/
def listAdd (m : Memory) (new head : Nat) : Memory :=
  if new = 0 ∨ head = 0 then m
  else
    let m := store32 m (new + 4) (load32 m (head + 4))
    let m := store32 m new head
    let m := store32 m (load32 m (head + 4)) new
    store32 m (head + 4) new

/-- `list_del`: unlink `node` and make it a ring of its own. -/
def listDel (m : Memory) (node : Nat) : Memory :=
  if node = 0 then m
  else
    let m := store32 m (load32 m node + 4) (load32 m (node + 4))
    let m := store32 m (load32 m (node + 4)) (load32 m node)
    listInit m node

/-! ## Segments -/

/-- `b` follows `a`, and `b` knows it. -/
def Link (m : Memory) (a b : Nat) : Prop := load32 m (a + 4) = b ∧ load32 m b = a

/-- The nodes `ns` lie between `a` and `b` in this order. -/
def Segment (m : Memory) : Nat → List Nat → Nat → Prop
  | a, [], b => Link m a b
  | a, n :: ns, b => Link m a n ∧ Segment m n ns b

/-- The links of the nodes in memory. -/
def linksOf (m : Memory) : Links Nat := fun n => ⟨load32 m n, load32 m (n + 4)⟩

theorem segment_iff {m : Memory} {a b : Nat} {ns : List Nat} :
    Segment m a ns b ↔ Chain (linksOf m) a ns b := by
  induction ns generalizing a with
  | nil => exact Iff.rfl
  | cons n ns ih => exact and_congr Iff.rfl ih

theorem segment_append {m : Memory} {a b n : Nat} {xs ys : List Nat} :
    Segment m a (xs ++ n :: ys) b ↔ Segment m a xs n ∧ Segment m n ys b := by
  simp only [segment_iff, chain_append]

/-- A segment only depends on the `next` words of its sources and the `prev` words of its
targets. -/
theorem Segment.congr {m m' : Memory} {a b : Nat} {ns : List Nat} (h : Segment m a ns b)
    (hnext : ∀ x ∈ a :: ns, load32 m' (x + 4) = load32 m (x + 4))
    (hprev : ∀ x ∈ ns ++ [b], load32 m' x = load32 m x) : Segment m' a ns b :=
  segment_iff.mpr ((segment_iff.mp h).congr hnext hprev)

/-- The node after `a`. -/
theorem Segment.next_mem {m : Memory} {a b : Nat} {ns : List Nat} (h : Segment m a ns b) :
    load32 m (a + 4) ∈ ns ++ [b] := (segment_iff.mp h).next_mem

/-- Two nodes that do not overlap. -/
def NodeApart (x y : Nat) : Prop := x + 8 ≤ y ∨ y + 8 ≤ x

theorem NodeApart.symm {x y : Nat} (h : NodeApart x y) : NodeApart y x := Or.symm h

theorem NodeApart.ne {x y : Nat} (h : NodeApart x y) : x ≠ y := by
  unfold NodeApart at h
  omega

/-- No two of the nodes overlap. -/
def Spaced (ns : List Nat) : Prop := ∀ x ∈ ns, ∀ y ∈ ns, x = y ∨ NodeApart x y

theorem spaced_of_pairwise {ns : List Nat} (h : ns.Pairwise NodeApart) : Spaced ns := by
  have : Std.Symm NodeApart := ⟨fun _ _ => NodeApart.symm⟩
  exact fun x hx y hy => or_iff_not_imp_left.mpr (h.forall hx hy)

/-! ## Memory and links -/

theorem LinkRing.of_words {m : Memory} {l : Links Nat} {h : Nat} {ns : List Nat}
    (hr : LinkRing l h ns)
    (hwords : ∀ x ∈ h :: ns, load32 m x = (l x).prev ∧ load32 m (x + 4) = (l x).next) :
    LinkRing (linksOf m) h ns :=
  hr.congr fun x hx => by
    unfold linksOf
    rw [(hwords x hx).1, (hwords x hx).2]

/-- The words of the nodes `ns` are their links. -/
def HasLinks (m : Memory) (ns : List Nat) (l : Links Nat) : Prop :=
  ∀ x ∈ ns, load32 m x = (l x).prev ∧ load32 m (x + 4) = (l x).next

namespace HasLinks

variable {m : Memory} {ns : List Nat} {l : Links Nat} {n h v : Nat}

variable (hns : Spaced ns)

include hns

theorem setPrev (hl : HasLinks m ns l) (hn : n ∈ ns) (hv : v < 2 ^ 32) :
    HasLinks (store32 m n v) ns (l.setPrev n v) := by
  intro x hx
  have hap := hns x hx n hn
  unfold NodeApart at hap
  rw [Links.prev_setPrev, Links.next_setPrev]
  refine ⟨?_, (load32_store32_of_disjoint _ _ (by omega)).trans (hl x hx).2⟩
  split_ifs with hxn
  · rw [hxn, load32_store32, Nat.mod_eq_of_lt hv]
  · rw [load32_store32_of_disjoint _ _ (by omega)]
    exact (hl x hx).1

theorem setNext (hl : HasLinks m ns l) (hn : n ∈ ns) (hv : v < 2 ^ 32) :
    HasLinks (store32 m (n + 4) v) ns (l.setNext n v) := by
  intro x hx
  have hap := hns x hx n hn
  unfold NodeApart at hap
  rw [Links.prev_setNext, Links.next_setNext]
  refine ⟨(load32_store32_of_disjoint _ _ (by omega)).trans (hl x hx).1, ?_⟩
  split_ifs with hxn
  · rw [hxn, load32_store32, Nat.mod_eq_of_lt hv]
  · rw [load32_store32_of_disjoint _ _ (by omega)]
    exact (hl x hx).2

theorem listInit (hl : HasLinks m ns l) (hn : n ∈ ns) (hn32 : n < 2 ^ 32) :
    HasLinks (listInit m n) ns (l.init n) := by
  intro x hx
  have hwords := ((hl.setPrev hns hn hn32).setNext hns hn hn32) x hx
  rw [Links.prev_setNext, Links.next_setNext, Links.prev_setPrev, Links.next_setPrev] at hwords
  rw [Links.prev_init, Links.next_init]
  exact hwords

/-- Insertion after a node. -/
theorem listAdd (hl : HasLinks m ns l) (hn : n ∈ ns) (hh : h ∈ ns) (hnext : (l h).next ∈ ns)
    (hne : n ≠ h) (hn0 : n ≠ 0) (hh0 : h ≠ 0) (hn32 : n < 2 ^ 32) (hh32 : h < 2 ^ 32) :
    HasLinks (listAdd m n h) ns (l.add n h) := by
  unfold Lib.listAdd Links.add
  rw [if_neg (by omega)]
  have h₁ := hl.setNext hns hn (load32_lt m (h + 4))
  rw [(hl h hh).2] at h₁ ⊢
  have h₂ := h₁.setPrev hns hn hh32
  have hnext₂ : (((l.setNext n (l h).next).setPrev n h) h).next = (l h).next := by
    rw [Links.next_setPrev, Links.next_setNext, if_neg hne.symm]
  dsimp only
  rw [(h₂ h hh).2, hnext₂]
  exact (h₂.setPrev hns hnext hn32).setNext hns hh hn32

/-- Removal of a node. -/
theorem listDel (hl : HasLinks m ns l) (hn : n ∈ ns) (hprev : (l n).prev ∈ ns)
    (hnext : (l n).next ∈ ns) (hn0 : n ≠ 0) (hn32 : n < 2 ^ 32) :
    HasLinks (listDel m n) ns (l.del n) := by
  unfold Lib.listDel Links.del
  rw [if_neg hn0, (hl n hn).1]
  dsimp only
  have h₁ := hl.setNext hns hprev (load32_lt m (n + 4))
  have hnext₁ : ((l.setNext (l n).prev (l n).next) n).next = (l n).next := by
    rw [Links.next_setNext, ite_self]
  rw [(hl n hn).2] at h₁ ⊢
  rw [(h₁ n hn).1, (h₁ n hn).2]
  have hprev32 := (h₁ n hn).1 ▸ load32_lt _ n
  have h₂ := h₁.setPrev hns (hnext₁.symm ▸ hnext) hprev32
  exact h₂.listInit hns hn hn32

end HasLinks

/-! ## Insertion -/

section Add

variable {m : Memory} {n h : Nat}

variable (hnew : n ≠ 0)

include hnew

theorem listAdd_eq (hh : h ≠ 0) (hapart : NodeApart n h) :
    listAdd m n h =
      store32 (store32 (store32 (store32 m (n + 4) (load32 m (h + 4))) n h)
        (load32 m (h + 4)) n) (h + 4) n := by
  unfold NodeApart at hapart
  unfold listAdd
  rw [if_neg (by omega)]
  dsimp only
  rw [load32_store32_of_disjoint _ _ (a := h + 4) (b := n) (by omega),
    load32_store32_of_disjoint _ _ (a := h + 4) (b := n + 4) (by omega)]

/-- Insertion only writes to the new node, the node before it and the node after it. -/
theorem listAdd_apply (hh : h ≠ 0) (hapart : NodeApart n h) {x : Nat} (ha : x < n ∨ n + 8 ≤ x)
    (hb : x < h + 4 ∨ h + 8 ≤ x) (hc : x < load32 m (h + 4) ∨ load32 m (h + 4) + 4 ≤ x) :
    listAdd m n h x = m x := by
  rw [listAdd_eq hnew hh hapart, store32_apply_of_disjoint _ _ (by omega),
    store32_apply_of_disjoint _ _ hc, store32_apply_of_disjoint _ _ (by omega),
    store32_apply_of_disjoint _ _ (by omega)]

theorem load32_listAdd (hh : h ≠ 0) (hapart : NodeApart n h) {a : Nat} (ha : a + 4 ≤ n ∨ n + 8 ≤ a)
    (hb : a + 4 ≤ h + 4 ∨ h + 8 ≤ a) (hc : a + 4 ≤ load32 m (h + 4) ∨ load32 m (h + 4) + 4 ≤ a) :
    load32 (listAdd m n h) a = load32 m a :=
  load32_congr fun _ _ _ => listAdd_apply hnew hh hapart (by omega) (by omega) (by omega)

/-- A new node comes first. -/
theorem listAdd_head {ns : List Nat} (hnew32 : n < 2 ^ 32) (hh : h ≠ 0) (hh32 : h < 2 ^ 32)
    (hring : LinkRing (linksOf m) h ns) (hn : n ∉ h :: ns) (hspaced : Spaced (n :: h :: ns)) :
    LinkRing (linksOf (listAdd m n h)) h (n :: ns) := by
  have hhmem : h ∈ n :: h :: ns := List.mem_cons_of_mem _ List.mem_cons_self
  have hlinks := HasLinks.listAdd hspaced (l := linksOf m) (fun _ _ => ⟨rfl, rfl⟩)
    List.mem_cons_self hhmem
    (List.mem_cons_of_mem _ (hring.mem_neighbours List.mem_cons_self).2)
    (fun heq => hn (heq ▸ List.mem_cons_self)) hnew hh hnew32 hh32
  refine (hring.add hn).of_words fun x hx => hlinks x ?_
  rw [List.mem_cons, List.mem_cons] at hx ⊢
  tauto

/-- Insertion into a ring after one of its nodes. -/
theorem listAdd_ring {head : Nat} {xs ys : List Nat} (hnew32 : n < 2 ^ 32) (hh : h ≠ 0)
    (hh32 : h < 2 ^ 32) (hring : Segment m head (xs ++ h :: ys) head)
    (hnewapart : ∀ x ∈ head :: (xs ++ h :: ys), NodeApart n x)
    (hapart : (head :: (xs ++ h :: ys)).Pairwise NodeApart) :
    Segment (listAdd m n h) head (xs ++ h :: n :: ys) head := by
  have hlinks : LinkRing (linksOf m) head (xs ++ h :: ys) :=
    ⟨segment_iff.mp hring, hapart.imp NodeApart.ne⟩
  have hmem (x : Nat) : x ∈ h :: (ys ++ head :: xs) ↔ x ∈ head :: (xs ++ h :: ys) := by
    simp only [List.mem_cons, List.mem_append]
    tauto
  -- seen from `h` the new node comes first
  have hadd : LinkRing (linksOf (listAdd m n h)) h ((n :: ys) ++ head :: xs) := by
    refine listAdd_head hnew hnew32 hh hh32 hlinks.rotate (fun hx => ?_) fun x hx y hy => ?_
    · exact (hnewapart n ((hmem n).mp hx)).ne rfl
    · refine spaced_of_pairwise (List.pairwise_cons.mpr ⟨hnewapart, hapart⟩) x ?_ y ?_
      · exact List.mem_cons.mpr ((List.mem_cons.mp hx).imp_right (hmem x).mp)
      · exact List.mem_cons.mpr ((List.mem_cons.mp hy).imp_right (hmem y).mp)
  exact segment_iff.mpr hadd.rotate.chain

end Add

/-! ## Removal -/

section Del

variable {m : Memory} {p n : Nat}

theorem listDel_eq (hn : n ≠ 0) (hprev : load32 m n = p) (hapart : NodeApart p n) :
    listDel m n =
      store32 (store32 (store32 (store32 m (p + 4) (load32 m (n + 4))) (load32 m (n + 4)) p)
        n n) (n + 4) n := by
  unfold NodeApart at hapart
  unfold listDel listInit
  rw [if_neg hn]
  dsimp only
  rw [load32_store32_of_disjoint _ _ (a := n + 4) (by omega),
    load32_store32_of_disjoint _ _ (a := n) (by omega), hprev]

/-- Removal only writes to the node and to its two neighbours. -/
theorem listDel_apply (hn : n ≠ 0) (hprev : load32 m n = p) (hapart : NodeApart p n) {x : Nat}
    (ha : x < n ∨ n + 8 ≤ x) (hb : x < p + 4 ∨ p + 8 ≤ x)
    (hc : x < load32 m (n + 4) ∨ load32 m (n + 4) + 4 ≤ x) : listDel m n x = m x := by
  rw [listDel_eq hn hprev hapart, store32_apply_of_disjoint _ _ (by omega),
    store32_apply_of_disjoint _ _ (by omega), store32_apply_of_disjoint _ _ hc,
    store32_apply_of_disjoint _ _ (by omega)]

/-- Removal of a node that is not the first of a ring. -/
theorem listDel_ring {head : Nat} {xs ys : List Nat} (hn : n ≠ 0)
    (hring : Segment m head (xs ++ p :: n :: ys) head)
    (hapart : (head :: (xs ++ p :: n :: ys)).Pairwise NodeApart) :
    Segment (listDel m n) head (xs ++ p :: ys) head := by
  have hlinks : LinkRing (linksOf m) head (xs ++ p :: n :: ys) :=
    ⟨segment_iff.mp hring, hapart.imp NodeApart.ne⟩
  have hn32 : n < 2 ^ 32 := (segment_append.mp hring).2.1.1 ▸ load32_lt m (p + 4)
  have hnmem : n ∈ head :: (xs ++ p :: n :: ys) := by simp
  obtain ⟨hprev, hnext⟩ := hlinks.mem_neighbours hnmem
  have hdel := HasLinks.listDel (spaced_of_pairwise hapart) (l := linksOf m)
    (fun _ _ => ⟨rfl, rfl⟩) hnmem hprev hnext hn hn32
  rw [List.append_cons] at hlinks ⊢
  refine segment_iff.mpr (hlinks.del.of_words fun x hx => hdel x ?_).chain
  simp only [List.mem_cons, List.mem_append] at hx ⊢
  tauto

end Del

end Ukernel.Lib
