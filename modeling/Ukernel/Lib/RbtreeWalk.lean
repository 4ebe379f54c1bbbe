import Ukernel.Lib.RbtreeIter
import Ukernel.Lib.RbtreeRuns

/-!
# Walks backwards, and walks that delete

`rbtree_last` and `rbtree_prev` are `rbtree_first` and `rbtree_next` with the sides exchanged. The
source writes both versions out, and so does the model; their relation is that the backward walk of
a tree is the forward walk of its mirror image, whose labels are those of the tree in reverse. So
nothing about climbing and descending is proved a second time.

`rbtree_for_each_safe` fetches the successor before it runs the body, and uses it after the body
may have deleted the current node. Deletion moves nodes around the current one, the successor among
them, but it keeps the order of the nodes that stay. What a walk needs is stated in terms of that
order alone: the nodes before the current one are those that the body has spared, and the nodes
from the current one on are untouched.

## Main definitions

* `RbTree.rbtreeLast`, `RbTree.rbtreePrev`, `RbTree.rbtreeForEachBack`: the walk backwards
* `RbTree.rbtreeForEachSafe`: the walk that deletes chosen nodes

## Main results

* `RbTree.rbtreeForEachBack_eq`: the walk backwards visits the labels in reverse
* `RbTree.forEachSafeFrom_spec`: the walk that deletes visits every label that was there
* `RbTree.run_walks`: the walks over a tree that any run has built
-/

namespace Ukernel.Lib

/-- The tree with its sides exchanged. -/
def Tree.mirror {α : Type*} : Tree α → Tree α
  | .nil => .nil
  | .node c l x r => .node c r.mirror x l.mirror

@[simp] theorem Tree.toList_mirror {α : Type*} (t : Tree α) :
    t.mirror.toList = t.toList.reverse := by
  induction t with
  | nil => rfl
  | node c l x r ihl ihr => simp [Tree.mirror, ihl, ihr]

namespace RbTree

variable {s : RbTree} {t : Tree Nat}

/-! ## The walk backwards -/

/-- The loop of `rbtree_last`. -/
def rightmost (s : RbTree) : (fuel node : Nat) → Option Nat
  | 0, _ => none
  | fuel + 1, node =>
    if (s.mem node).right ≠ s.nil then rightmost s fuel (s.mem node).right else some node

/-- `rbtree_last`. -/
def rbtreeLast (fuel : Nat) (s : RbTree) : Option Nat :=
  if s.root = s.nil then some 0 else rightmost s fuel s.root

/-- The loop of `rbtree_prev` that climbs until it comes from the right. -/
def climbBack (s : RbTree) : (fuel node p : Nat) → Option Nat
  | 0, _, _ => none
  | fuel + 1, node, p =>
    if p ≠ s.nil ∧ node = (s.mem p).left then climbBack s fuel p (s.mem p).parent else some p

/-- `rbtree_prev`. -/
def rbtreePrev (fuel : Nat) (s : RbTree) (node : Nat) : Option Nat :=
  if (s.mem node).left ≠ s.nil then rightmost s fuel (s.mem node).left
  else (climbBack s fuel node (s.mem node).parent).map fun p => if p = s.nil then 0 else p

/-- The nodes that a walk by `rbtree_prev` visits from `pos` on. -/
def forEachBackFrom (fuel : Nat) (s : RbTree) : (steps pos : Nat) → Option (List Nat)
  | 0, _ => none
  | steps + 1, pos =>
    if pos = 0 then some []
    else do
      let prev ← rbtreePrev fuel s pos
      let rest ← forEachBackFrom fuel s steps prev
      return pos :: rest

/-- The nodes that a walk from `rbtree_last` by `rbtree_prev` visits. -/
def rbtreeForEachBack (fuel : Nat) (s : RbTree) : Option (List Nat) := do
  let pos ← rbtreeLast fuel s
  forEachBackFrom fuel s fuel pos

/-- The memory with the sides of every node exchanged. -/
def mirror (s : RbTree) : RbTree :=
  { s with mem := fun x => ⟨(s.mem x).col, (s.mem x).parent, (s.mem x).right, (s.mem x).left⟩ }

theorem rightmost_eq (s : RbTree) (fuel node : Nat) :
    rightmost s fuel node = leftmost s.mirror fuel node := by
  induction fuel generalizing node with
  | zero => rfl
  | succ fuel ih =>
    simp only [rightmost, leftmost, ih]
    rfl

theorem climbBack_eq (s : RbTree) (fuel node p : Nat) :
    climbBack s fuel node p = climb s.mirror fuel node p := by
  induction fuel generalizing node p with
  | zero => rfl
  | succ fuel ih =>
    simp only [climbBack, climb, ih]
    rfl

theorem rbtreePrev_eq (s : RbTree) (fuel node : Nat) :
    rbtreePrev fuel s node = rbtreeNext fuel s.mirror node := by
  simp only [rbtreePrev, rbtreeNext, rightmost_eq, climbBack_eq]
  rfl

theorem forEachBackFrom_eq (s : RbTree) (fuel steps pos : Nat) :
    forEachBackFrom fuel s steps pos = forEachFrom fuel s.mirror steps pos := by
  induction steps generalizing pos with
  | zero => rfl
  | succ steps ih => simp only [forEachBackFrom, forEachFrom, rbtreePrev_eq, ih]

theorem rbtreeForEachBack_mirror (s : RbTree) (fuel : Nat) :
    rbtreeForEachBack fuel s = rbtreeForEach fuel s.mirror := by
  simp only [rbtreeForEachBack, rbtreeForEach, rbtreeLast, rbtreeFirst, rightmost_eq,
    forEachBackFrom_eq]
  rfl

theorem ptr_mirror (s : RbTree) (t : Tree Nat) : s.mirror.ptr t.mirror = s.ptr t := by
  cases t <;> rfl

theorem TreeAt.mirror {p : Nat} (h : s.TreeAt t p) : s.mirror.TreeAt t.mirror p := by
  induction t generalizing p with
  | nil => trivial
  | node c l x r ihl ihr =>
    obtain ⟨hx, hmem, hl, hr⟩ := h
    refine ⟨hx, ?_, ihr hr, ihl hl⟩
    rw [ptr_mirror, ptr_mirror]
    simp only [RbTree.mirror, hmem]

theorem Represents.mirror (h : s.Represents t) : s.mirror.Represents t.mirror := by
  refine ⟨⟨?_, h.laid.tree.mirror, ?_⟩, h.nilCol⟩
  · rw [ptr_mirror]
    exact h.laid.ctx
  · grind [h.laid.nodup, Tree.toList_mirror, plug]

/-- The walk backwards visits the labels of the tree in reverse. -/
theorem rbtreeForEachBack_eq {fuel : Nat} (h : s.Represents t) (hnull : ∀ x ∈ t.toList, x ≠ 0)
    (hfuel : t.toList.length < fuel) : rbtreeForEachBack fuel s = some t.toList.reverse := by
  rw [rbtreeForEachBack_mirror, ← Tree.toList_mirror]
  apply rbtreeForEach_eq h.mirror
  · simpa using hnull
  · simpa using hfuel

/-! ## The walk that deletes -/

/-- The successor that `rbtree_for_each_safe` fetches in advance. -/
def fetchNext (fuel : Nat) (s : RbTree) (pos : Nat) : Option Nat :=
  if pos = 0 then some 0 else rbtreeNext fuel s pos

/-- The body of the walk: it deletes the node where it is chosen. -/
def deleteChosen (fuel : Nat) (chosen : Nat → Bool) (s : RbTree) (pos : Nat) : Option RbTree :=
  if chosen pos then rbtreeDelete fuel s pos else some s

/-- The nodes that `rbtree_for_each_safe` visits from `pos` on, with `n` fetched in advance, and
the tree it leaves. -/
def forEachSafeFrom (fuel : Nat) (chosen : Nat → Bool) :
    (steps : Nat) → RbTree → (pos n : Nat) → Option (List Nat × RbTree)
  | 0, _, _, _ => none
  | steps + 1, s, pos, n =>
    if pos = 0 then some ([], s)
    else do
      let s' ← deleteChosen fuel chosen s pos
      let n' ← fetchNext fuel s' n
      let (rest, s'') ← forEachSafeFrom fuel chosen steps s' n n'
      return (pos :: rest, s'')

/-- `rbtree_for_each_safe` with a body that deletes the chosen nodes. -/
def rbtreeForEachSafe (fuel : Nat) (chosen : Nat → Bool) (s : RbTree) :
    Option (List Nat × RbTree) := do
  let pos ← rbtreeFirst fuel s
  let n ← fetchNext fuel s pos
  forEachSafeFrom fuel chosen fuel s pos n

theorem fetchNext_eq {fuel : Nat} {ys xs : List Nat} (h : s.Represents t)
    (hnull : ∀ x ∈ t.toList, x ≠ 0) (hfuel : t.toList.length < fuel)
    (heq : t.toList = ys ++ xs) : fetchNext fuel s (xs.headD 0) = some (xs.tail.headD 0) := by
  unfold fetchNext
  cases xs with
  | nil => rfl
  | cons x xs => grind [rbtreeNext_of_toList]

/-- Taking one label out of a list of distinct ones. -/
theorem eq_append_of_perm {l ys xs : List Nat} {x : Nat} (hnodup : (ys ++ x :: xs).Nodup)
    (hsub : l.Sublist (ys ++ x :: xs)) (hperm : (ys ++ x :: xs).Perm (x :: l)) : l = ys ++ xs := by
  have hx : x ∉ l := (List.nodup_cons.mp (hperm.nodup_iff.mp hnodup)).1
  have hys : x ∉ ys := fun h => (List.nodup_append.mp hnodup).2.2 x h x List.mem_cons_self rfl
  have herase := hsub.erase x
  rw [List.erase_of_not_mem hx, List.erase_append_right _ hys, List.erase_cons_head] at herase
  refine herase.eq_of_length ?_
  have hlen := hperm.length_eq
  simp only [List.length_append, List.length_cons] at hlen ⊢
  omega

/-- One visit: the body deletes the node or not, and the nodes after it stay where they are. -/
theorem deleteChosen_spec {fuel m x : Nat} {ys xs : List Nat} (chosen : Nat → Bool)
    (h : s.Represents t) (hbal : Balanced t .black m) (hnull : ∀ x ∈ t.toList, x ≠ 0)
    (hfuel : t.toList.length < fuel) (heq : t.toList = ys ++ x :: xs) :
    ∃ s' t', deleteChosen fuel chosen s x = some s' ∧ s'.Represents t' ∧
      (∃ m, Balanced t' .black m) ∧
      t'.toList = (ys ++ [x].filter fun y => !chosen y) ++ xs := by
  have hx : x ∈ t.toList := by simp [heq]
  unfold deleteChosen
  cases hc : chosen x with
  | false => exact ⟨s, t, rfl, h, ⟨m, hbal⟩, by simp [heq, hc]⟩
  | true =>
    obtain ⟨s', t', hdel, hrep, hbal', hsub, hperm, -⟩ :=
      rbtreeDelete_spec h hbal hx (hnull x hx) hfuel
    refine ⟨s', t', hdel, hrep, hbal', ?_⟩
    have hnodup : t.toList.Nodup := h.laid.nodup
    rw [heq] at hnodup hsub hperm
    simpa [hc] using eq_append_of_perm hnodup hsub hperm

/-- The walk visits every label from the current one on, whichever of them its body deletes, and
leaves those that were not chosen. -/
theorem forEachSafeFrom_spec {fuel m steps : Nat} {ys xs : List Nat} (chosen : Nat → Bool)
    (h : s.Represents t) (hbal : Balanced t .black m) (hnull : ∀ x ∈ t.toList, x ≠ 0)
    (hfuel : t.toList.length < fuel) (heq : t.toList = ys ++ xs) (hsteps : xs.length < steps) :
    ∃ s' t', forEachSafeFrom fuel chosen steps s (xs.headD 0) (xs.tail.headD 0) = some (xs, s') ∧
      s'.Represents t' ∧ (∃ m, Balanced t' .black m) ∧
      t'.toList = ys ++ xs.filter fun x => !chosen x := by
  induction xs generalizing s t m ys steps with
  | nil =>
    obtain ⟨steps, rfl⟩ : ∃ k, steps = k + 1 := ⟨steps - 1, by simp at hsteps; omega⟩
    exact ⟨s, t, if_pos rfl, h, ⟨m, hbal⟩, by simpa using heq⟩
  | cons x xs ih =>
    obtain ⟨steps, rfl⟩ : ∃ k, steps = k + 1 := ⟨steps - 1, by simp at hsteps; omega⟩
    obtain ⟨s₁, t₁, hbody, hrep₁, ⟨m₁, hbal₁⟩, heq₁⟩ :=
      deleteChosen_spec chosen h hbal hnull hfuel heq
    -- the tree after the body has no label that was not there before
    have hsub : t₁.toList.Sublist t.toList := by grind
    have hnull₁ : ∀ y ∈ t₁.toList, y ≠ 0 := fun y hy => hnull y (hsub.subset hy)
    have hfuel₁ : t₁.toList.length < fuel := Nat.lt_of_le_of_lt hsub.length_le hfuel
    obtain ⟨s', t', hloop, hrep', hbal', heq'⟩ :=
      ih hrep₁ hbal₁ hnull₁ hfuel₁ heq₁ (Nat.lt_of_succ_lt_succ hsteps)
    refine ⟨s', t', ?_, hrep', hbal', ?_⟩
    · rw [List.headD_cons, List.tail_cons, forEachSafeFrom, if_neg (hnull x (by simp [heq])), hbody]
      simp only [Option.bind_eq_bind, Option.bind_some, fetchNext_eq hrep₁ hnull₁ hfuel₁ heq₁,
        hloop]
      rfl
    · rw [heq', List.append_assoc, ← List.filter_append]
      rfl

theorem rbtreeForEachSafe_spec {fuel m : Nat} (chosen : Nat → Bool) (h : s.Represents t)
    (hbal : Balanced t .black m) (hnull : ∀ x ∈ t.toList, x ≠ 0)
    (hfuel : t.toList.length < fuel) :
    ∃ s' t', rbtreeForEachSafe fuel chosen s = some (t.toList, s') ∧ s'.Represents t' ∧
      (∃ m, Balanced t' .black m) ∧ t'.toList = t.toList.filter fun x => !chosen x := by
  have hsplit : t.toList = [] ++ t.toList := (List.nil_append _).symm
  unfold rbtreeForEachSafe
  rw [rbtreeFirst_eq h (Nat.le_of_lt hfuel)]
  simp only [Option.bind_eq_bind, Option.bind_some, fetchNext_eq h hnull hfuel hsplit]
  exact forEachSafeFrom_spec chosen h hbal hnull hfuel hsplit hfuel

/-! ## Walks over the trees that runs build -/

/-- After every run of insertions and deletions, the walk forwards visits the nodes, each once and
in order, the walk backwards visits them in reverse, and a walk that deletes any of the nodes it
visits still visits them all and leaves a red-black tree of the others. -/
theorem run_walks (cmp : Nat → Nat → Int) (hcmp : TotalPreorder cmp) (mem : Nat → RbNode)
    (nil : Nat) (ops : List Op) (fuel : Nat) (hfuel : ops.length < fuel)
    (hops : (treeSystem fuel cmp).Legal (some ⟨rbtreeCreate mem nil, []⟩) ops) :
    ∃ h order, (treeSystem fuel cmp).run (some ⟨rbtreeCreate mem nil, []⟩) ops = some h ∧
      order.Perm h.nodes ∧ order.Nodup ∧ order.Pairwise (Le cmp) ∧
      rbtreeForEach fuel h.tree = some order ∧
      rbtreeForEachBack fuel h.tree = some order.reverse ∧
      ∀ chosen : Nat → Bool, ∃ s',
        rbtreeForEachSafe fuel chosen h.tree = some (order, s') ∧
          rbtreeForEach fuel s' = some (order.filter fun x => !chosen x) ∧
          ∃ t m, s'.Represents t ∧ Balanced t .black m ∧
            t.toList = order.filter fun x => !chosen x := by
  obtain ⟨h, t, hrun, hinv, hlen⟩ :=
    (historyInv_create cmp mem nil).run hcmp ops (by simpa using hfuel) hops
  have hnull : ∀ x ∈ t.toList, x ≠ 0 := fun x hx => hinv.nonnull x (hinv.nodes.subset hx)
  have hlt : t.toList.length < fuel := by grind [hinv.nodes.length_eq]
  obtain ⟨m, hbal⟩ := hinv.balanced
  refine ⟨h, t.toList, hrun, hinv.nodes, hinv.represents.laid.nodup, hinv.sorted,
    rbtreeForEach_eq hinv.represents hnull hlt, rbtreeForEachBack_eq hinv.represents hnull hlt,
    fun chosen => ?_⟩
  obtain ⟨s', t', hwalk, hrep, ⟨m', hbal'⟩, heq⟩ :=
    rbtreeForEachSafe_spec chosen hinv.represents hbal hnull hlt
  have hsub : t'.toList.Sublist t.toList := by
    rw [heq]
    exact List.filter_sublist
  refine ⟨s', hwalk, ?_, t', m', hrep, hbal', heq⟩
  rw [← heq]
  exact rbtreeForEach_eq hrep (fun x hx => hnull x (hsub.subset hx))
    (Nat.lt_of_le_of_lt hsub.length_le hlt)

/-- Three nodes, ordered by address, of which the walk deletes the one in the middle. -/
theorem run_walks_three :
    ∃ h s', (treeSystem 4 fun a b => (a : Int) - b).run
        (some ⟨rbtreeCreate (fun _ => ⟨.red, 0, 0, 0⟩) 100, []⟩)
        [.insert 7, .insert 5, .insert 9] = some h ∧
      rbtreeForEachBack 4 h.tree = some [9, 7, 5] ∧
      rbtreeForEachSafe 4 (· == 7) h.tree = some ([5, 7, 9], s') ∧
      rbtreeForEach 4 s' = some [5, 9] := by
  have hcmp : TotalPreorder fun a b : Nat => (a : Int) - b :=
    ⟨fun a b => by simp only [Le]; omega, fun a b c => by simp only [Le]; omega⟩
  have hops : (treeSystem 4 fun a b => (a : Int) - b).Legal
      (some ⟨rbtreeCreate (fun _ => ⟨.red, 0, 0, 0⟩) 100, []⟩)
      [.insert 7, .insert 5, .insert 9] := by
    refine ⟨?_, ?_, ?_, trivial⟩
    all_goals
      rintro h ⟨⟩
      exact ⟨by decide, by decide, by decide⟩
  obtain ⟨h, order, hrun, -, -, -, hwalk, hback, hsafe⟩ :=
    run_walks _ hcmp (fun _ => ⟨.red, 0, 0, 0⟩) 100 [.insert 7, .insert 5, .insert 9] 4
      (by decide) hops
  have hthree : (((treeSystem 4 fun a b => (a : Int) - b).run
      (some ⟨rbtreeCreate (fun _ => ⟨.red, 0, 0, 0⟩) 100, []⟩)
      [.insert 7, .insert 5, .insert 9]).bind fun h => rbtreeForEach 4 h.tree) =
      some [5, 7, 9] := by decide
  rw [hrun, Option.bind_some, hwalk, Option.some.injEq] at hthree
  subst hthree
  obtain ⟨s', hvisited, hleft, -⟩ := hsafe (· == 7)
  exact ⟨h, s', hrun, hback, hvisited, hleft⟩

end RbTree

end Ukernel.Lib
