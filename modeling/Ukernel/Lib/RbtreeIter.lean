import Ukernel.Lib.RbtreeDelete

/-!
# Walking a pointer red-black tree

`rbtree_first`, `rbtree_next` and `rbtree_search`. A node's successor is the leftmost node of its
right subtree or, where that is empty, the label of the first frame above it whose hole is on the
left.

## Main definitions

* `RbTree.rbtreeFirst`, `RbTree.rbtreeNext`, `RbTree.rbtreeForEach`: the walk in order
* `RbTree.rbtreeSearch`: the search for a key

## Main results

* `RbTree.rbtreeForEach_eq`: the walk visits the labels of the tree in order
* `RbTree.rbtreeSearch_spec`: the search returns a label that compares equal, if there is one
-/

namespace Ukernel.Lib

namespace RbTree

/-- `rbtree_first`. -/
def rbtreeFirst (fuel : Nat) (s : RbTree) : Option Nat :=
  if s.root = s.nil then some 0 else leftmost s fuel s.root

/-- The loop of `rbtree_next` that climbs until it comes from the left. -/
def climb (s : RbTree) : (fuel node p : Nat) → Option Nat
  | 0, _, _ => none
  | fuel + 1, node, p =>
    if p ≠ s.nil ∧ node = (s.mem p).right then climb s fuel p (s.mem p).parent else some p

/-- `rbtree_next`. -/
def rbtreeNext (fuel : Nat) (s : RbTree) (node : Nat) : Option Nat :=
  if (s.mem node).right ≠ s.nil then leftmost s fuel (s.mem node).right
  else (climb s fuel node (s.mem node).parent).map fun p => if p = s.nil then 0 else p

/-- The nodes that `rbtree_for_each` visits from `pos` on, `steps` bounding their number. -/
def forEachFrom (fuel : Nat) (s : RbTree) : (steps pos : Nat) → Option (List Nat)
  | 0, _ => none
  | steps + 1, pos =>
    if pos = 0 then some []
    else do
      let next ← rbtreeNext fuel s pos
      let rest ← forEachFrom fuel s steps next
      return pos :: rest

/-- The nodes that `rbtree_for_each` visits. -/
def rbtreeForEach (fuel : Nat) (s : RbTree) : Option (List Nat) := do
  let pos ← rbtreeFirst fuel s
  forEachFrom fuel s fuel pos

/-- `rbtree_search`, `cmp` comparing the key with a node. -/
def rbtreeSearch (cmp : Nat → Int) (s : RbTree) : (fuel node : Nat) → Option Nat
  | 0, _ => none
  | fuel + 1, node =>
    if node = s.nil then some 0
    else if cmp node < 0 then rbtreeSearch cmp s fuel (s.mem node).left
    else if 0 < cmp node then rbtreeSearch cmp s fuel (s.mem node).right
    else some node

variable {s : RbTree} {k : Ctx Nat} {t : Tree Nat}

/-- The leftmost node is the first label. -/
theorem leftmost_head {p fuel : Nat} (h : s.TreeAt t p) (ht : t ≠ .nil)
    (hfuel : t.toList.length ≤ fuel) : leftmost s fuel (s.ptr t) = t.toList.head? := by
  obtain ⟨j, cy, y, ry, rfl, hbefore, hy⟩ := leftmost_spec h ht hfuel
  rw [hy, toList_plug, hbefore]
  simp

theorem rbtreeFirst_eq {fuel : Nat} (h : s.Represents t) (hfuel : t.toList.length ≤ fuel) :
    rbtreeFirst fuel s = some (t.toList.headD 0) := by
  unfold rbtreeFirst
  have hroot : s.root = s.ptr t := h.laid.ctx
  cases t with
  | nil => exact if_pos hroot
  | node c l x r =>
    rw [if_neg (hroot ▸ h.laid.tree.1), hroot, leftmost_head h.laid.tree (by simp) hfuel]
    cases l <;> simp [Tree.toList]

/-- Climbing stops at the next label after the hole. -/
theorem climb_eq {fuel : Nat} (h : s.Laid k t) (ht : t ≠ .nil) (hfuel : k.length < fuel) :
    climb s fuel (s.ptr t) (s.parentOf k) = some ((Ctx.after k).headD s.nil) := by
  induction k generalizing t fuel with
  | nil =>
    obtain ⟨fuel, rfl⟩ : ∃ f, fuel = f + 1 := ⟨fuel - 1, by simp at hfuel; omega⟩
    rw [climb, if_neg fun hc => hc.1 rfl]
    rfl
  | cons f k ih =>
    obtain ⟨fuel, rfl⟩ : ∃ f, fuel = f + 1 := ⟨fuel - 1, by simp at hfuel; omega⟩
    obtain ⟨d, c, x, u⟩ := f
    obtain ⟨hx, -, hparent, hchild, hsibling⟩ := h.above
    rw [climb]
    cases d with
    | left =>
      -- the hole is on the left: the parent comes next
      rw [if_neg]
      · rfl
      · rintro ⟨-, heq⟩
        rw [show (s.mem (s.parentOf (⟨.left, c, x, u⟩ :: k))).right = s.ptr u from hsibling] at heq
        by_cases hu : u = .nil
        · have hmem : s.ptr t ∈ t.toList := (s.ptr_mem t).resolve_left fun hn => ht hn.1
          rw [hu] at heq
          exact h.tree.ne_nil hmem heq
        · exact h.ptr_ne_sibling hu heq.symm
    | right =>
      rw [if_pos ⟨hx, hchild.symm⟩, show (s.mem (s.parentOf (⟨.right, c, x, u⟩ :: k))).parent =
        s.parentOf k from hparent]
      have hk : k.length < fuel := by
        simp at hfuel
        omega
      have hup := ih h.up (by simp [Frame.fill]) hk
      exact hup

theorem rbtreeNext_eq {c : Color} {l r : Tree Nat} {x fuel : Nat} (h : s.Laid k (.node c l x r))
    (hfuel : (plug k (.node c l x r)).toList.length < fuel) :
    rbtreeNext fuel s x = some ((r.toList ++ Ctx.after k).headD 0) := by
  obtain ⟨hx, hxm, -, hr⟩ := h.tree
  have hlen : k.length < fuel := Nat.lt_of_le_of_lt (length_ctx_le k _) hfuel
  unfold rbtreeNext
  rw [hxm]
  cases r with
  | nil =>
    have hclimb := climb_eq h (by simp) hlen
    rw [if_neg (by simp [ptr])]
    rw [show climb s fuel x (s.parentOf k) = _ from hclimb, Option.map_some]
    cases hafter : Ctx.after k with
    | nil => simp
    | cons y ys =>
      have hy : y ≠ s.nil := h.ctx.ne_nil (Or.inr (hafter ▸ List.mem_cons_self))
      simp [hy]
  | node cr lr xr rr =>
    have hright : s.ptr (.node cr lr xr rr) ≠ s.nil := hr.1
    have hle : (Tree.node cr lr xr rr).toList.length ≤ fuel := by
      grind [toList_plug, Tree.toList_node]
    rw [if_pos hright, leftmost_head hr (by simp) hle]
    cases lr <;> simp [Tree.toList]

/-- The successor of a label is the next one in order. -/
theorem rbtreeNext_of_toList {fuel x : Nat} {ys xs : List Nat} (h : s.Represents t)
    (hfuel : t.toList.length < fuel) (heq : t.toList = ys ++ x :: xs) :
    rbtreeNext fuel s x = some (xs.headD 0) := by
  have hmem : x ∈ t.toList := by simp [heq]
  obtain ⟨k, c, l, r, rfl⟩ := exists_plug_of_mem hmem
  have hlaid : s.Laid k (.node c l x r) := by
    rw [← List.append_nil k]
    exact laid_append.mpr h.laid
  have hlist : (plug k (.node c l x r)).toList =
      (k.before ++ l.toList) ++ x :: (r.toList ++ k.after) := by
    rw [toList_plug]
    simp
  -- the labels are distinct, so that the two ways to split at `x` are the same
  have hsplit : r.toList ++ k.after = xs := by
    grind [h.laid.nodup, List.append_cons_inj_of_notMem, plug]
  rw [rbtreeNext_eq hlaid hfuel, hsplit]

/-- The walk from a label on visits it and the labels after it. -/
theorem forEachFrom_eq {fuel steps : Nat} (h : s.Represents t) (hnull : ∀ x ∈ t.toList, x ≠ 0)
    (hfuel : t.toList.length < fuel) {ys xs : List Nat} (heq : t.toList = ys ++ xs)
    (hlt : xs.length < steps) : forEachFrom fuel s steps (xs.headD 0) = some xs := by
  induction steps generalizing ys xs with
  | zero => exact absurd hlt (Nat.not_lt_zero _)
  | succ steps ih =>
    cases xs with
    | nil => simp [forEachFrom]
    | cons x xs => grind [rbtreeNext_of_toList, List.append_cons, forEachFrom]

/-- The walk visits the labels of the tree in order. -/
theorem rbtreeForEach_eq {fuel : Nat} (h : s.Represents t) (hnull : ∀ x ∈ t.toList, x ≠ 0)
    (hfuel : t.toList.length < fuel) : rbtreeForEach fuel s = some t.toList := by
  unfold rbtreeForEach
  rw [rbtreeFirst_eq h (Nat.le_of_lt hfuel)]
  exact forEachFrom_eq h hnull hfuel (List.nil_append _).symm hfuel

/-- What the search returns compares equal. It finds nothing only if there is no such label, if the
labels that compare greater come first and those that compare smaller come last. -/
theorem rbtreeSearch_spec (cmp : Nat → Int) {fuel p : Nat} (h : s.TreeAt t p)
    (hfuel : t.toList.length < fuel) : ∃ y, rbtreeSearch cmp s fuel (s.ptr t) = some y ∧
      (y ∈ t.toList ∧ cmp y = 0 ∨ y = 0 ∧
        ((t.toList.Pairwise fun x y => cmp x ≤ 0 → cmp y < 0) → ∀ x ∈ t.toList, cmp x ≠ 0)) := by
  induction t generalizing fuel p with
  | nil =>
    obtain ⟨fuel, rfl⟩ : ∃ f, fuel = f + 1 := ⟨fuel - 1, by simp at hfuel; omega⟩
    exact ⟨0, by simp [rbtreeSearch, ptr], Or.inr ⟨rfl, by simp⟩⟩
  | node c l x r ihl ihr =>
    simp only [Tree.toList_node, List.length_append, List.length_cons] at hfuel
    obtain ⟨fuel, rfl⟩ : ∃ f, fuel = f + 1 := ⟨fuel - 1, by omega⟩
    obtain ⟨hx, hxm, hl, hr⟩ := h
    change ∃ y, rbtreeSearch cmp s (fuel + 1) x = some y ∧ _
    rw [rbtreeSearch, if_neg hx, hxm, Tree.toList_node, List.pairwise_append, List.pairwise_cons]
    rcases Int.lt_trichotomy (cmp x) 0 with hlt | heq | hgt
    · have hfl : l.toList.length < fuel := by omega
      obtain ⟨y, hy, hfound⟩ := ihl hl hfl
      rw [if_pos hlt]
      refine ⟨y, hy, hfound.imp (fun hm => ⟨by simp [hm.1], hm.2⟩) fun hn => ⟨hn.1, ?_⟩⟩
      -- what follows compares smaller
      rintro ⟨hpl, ⟨hxr, -⟩, -⟩ z hz
      have hnone := hn.2 hpl
      grind
    · rw [if_neg (by omega), if_neg (by omega)]
      exact ⟨x, rfl, Or.inl ⟨by simp, heq⟩⟩
    · have hfr : r.toList.length < fuel := by omega
      obtain ⟨y, hy, hfound⟩ := ihr hr hfr
      rw [if_neg (by omega), if_pos hgt]
      refine ⟨y, hy, hfound.imp (fun hm => ⟨by simp [hm.1], hm.2⟩) fun hn => ⟨hn.1, ?_⟩⟩
      rintro ⟨-, ⟨-, hpr⟩, hlr⟩ z hz
      have hleft (hz : z ∈ l.toList) := hlr z hz x List.mem_cons_self
      have hnone := hn.2 hpr
      grind

end RbTree

end Ukernel.Lib
