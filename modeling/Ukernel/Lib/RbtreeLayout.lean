import Ukernel.Lib.Rbtree

/-!
# Trees in the memory of a pointer tree

What it means for the memory to hold a tree in the hole of a context, and what each pointer update
of the operations does to it.

## Main definitions

* `RbTree.TreeAt`, `RbTree.CtxAt`: the memory holds a tree, or a context around a pointer
* `RbTree.Laid s k t`: the memory holds the tree `t` in the hole of the context `k`

## Main results

* `RbTree.rotate_laid`, `RbTree.setCol_laid`, `RbTree.replaceNode_laid`: rotation, painting and
  the removal of a node with at most one child
* `RbTree.deleteReplace_child`, `RbTree.deleteReplace_deep`: the successor takes a node's place
-/

namespace Ukernel.Lib

/-! ## Fields -/

@[simp] theorem RbNode.child_withChild (n : RbNode) (d : Side) (c : Nat) :
    (n.withChild d c).child d = c := by cases d <;> rfl

@[simp] theorem RbNode.child_withChild_flip (n : RbNode) (d : Side) (c : Nat) :
    (n.withChild d c).child d.flip = n.child d.flip := by cases d <;> rfl

@[simp] theorem RbNode.child_flip_withChild (n : RbNode) (d : Side) (c : Nat) :
    (n.withChild d.flip c).child d = n.child d := by cases d <;> rfl

@[simp] theorem RbNode.col_withChild (n : RbNode) (d : Side) (c : Nat) :
    (n.withChild d c).col = n.col := by cases d <;> rfl

@[simp] theorem RbNode.parent_withChild (n : RbNode) (d : Side) (c : Nat) :
    (n.withChild d c).parent = n.parent := by cases d <;> rfl

@[simp] theorem RbNode.child_withCol (n : RbNode) (d : Side) (c : Color) :
    (n.withCol c).child d = n.child d := by cases d <;> rfl

@[simp] theorem RbNode.child_withParent (n : RbNode) (d : Side) (p : Nat) :
    (n.withParent p).child d = n.child d := by cases d <;> rfl

@[simp] theorem RbNode.col_withCol (n : RbNode) (c : Color) : (n.withCol c).col = c := rfl

@[simp] theorem RbNode.parent_withCol (n : RbNode) (c : Color) :
    (n.withCol c).parent = n.parent := rfl

@[simp] theorem RbNode.col_withParent (n : RbNode) (p : Nat) : (n.withParent p).col = n.col := rfl

@[simp] theorem RbNode.parent_withParent (n : RbNode) (p : Nat) : (n.withParent p).parent = p := rfl

namespace RbTree

/-! ## Trees in memory -/

/-- The address of the root of a tree. -/
def ptr (s : RbTree) : Tree Nat → Nat
  | .nil => s.nil
  | .node _ _ x _ => x

/-- The memory holds a tree whose root has the given parent. -/
def TreeAt (s : RbTree) : Tree Nat → Nat → Prop
  | .nil, _ => True
  | .node c l x r, p =>
    x ≠ s.nil ∧ s.mem x = ⟨c, p, s.ptr l, s.ptr r⟩ ∧ TreeAt s l x ∧ TreeAt s r x

/-- The parent of what is in the hole. -/
def parentOf (s : RbTree) : Ctx Nat → Nat
  | [] => s.nil
  | f :: _ => f.label

/-- The memory holds a context, with `q` the pointer in the hole. -/
def CtxAt (s : RbTree) : Ctx Nat → Nat → Prop
  | [], q => s.root = q
  | f :: k, q =>
    f.label ≠ s.nil ∧ (s.mem f.label).col = f.color ∧ (s.mem f.label).parent = s.parentOf k ∧
      (s.mem f.label).child f.side = q ∧ (s.mem f.label).child f.side.flip = s.ptr f.sibling ∧
      TreeAt s f.sibling f.label ∧ CtxAt s k f.label

/-- The memory holds the tree `t` in the hole of the context `k`, at distinct addresses. -/
structure Laid (s : RbTree) (k : Ctx Nat) (t : Tree Nat) : Prop where
  ctx : s.CtxAt k (s.ptr t)
  tree : s.TreeAt t (s.parentOf k)
  nodup : (plug k t).toList.Nodup

theorem treeAt_fill {s : RbTree} {d : Side} {c : Color} {x p : Nat} {t u : Tree Nat} :
    s.TreeAt (Frame.fill ⟨d, c, x, u⟩ t) p ↔
      x ≠ s.nil ∧ (s.mem x).col = c ∧ (s.mem x).parent = p ∧ (s.mem x).child d = s.ptr t ∧
        (s.mem x).child d.flip = s.ptr u ∧ s.TreeAt t x ∧ s.TreeAt u x := by
  cases d <;> simp only [Frame.fill, TreeAt, RbNode.child, Side.flip] <;>
    constructor
  · rintro ⟨h1, h2, h3, h4⟩
    simp [h1, h2, h3, h4]
  · rintro ⟨h1, rfl, rfl, h4, h5, h6, h7⟩
    exact ⟨h1, by rw [← h4, ← h5], h6, h7⟩
  · rintro ⟨h1, h2, h3, h4⟩
    simp [h1, h2, h3, h4]
  · rintro ⟨h1, rfl, rfl, h4, h5, h6, h7⟩
    exact ⟨h1, by rw [← h4, ← h5], h7, h6⟩

theorem ptr_fill {s : RbTree} (f : Frame Nat) (t : Tree Nat) : s.ptr (f.fill t) = f.label := by
  obtain ⟨d, _, _, _⟩ := f
  cases d <;> rfl

/-- Moving the focus up. -/
theorem laid_cons {s : RbTree} {f : Frame Nat} {k : Ctx Nat} {t : Tree Nat} :
    s.Laid (f :: k) t ↔ s.Laid k (f.fill t) := by
  constructor
  · rintro ⟨⟨h1, h2, h3, h4, h5, h6, h7⟩, ht, hnd⟩
    exact ⟨by rw [ptr_fill]; exact h7, treeAt_fill.mpr ⟨h1, h2, h3, h4, h5, ht, h6⟩, hnd⟩
  · rintro ⟨hk, ht, hnd⟩
    rw [ptr_fill] at hk
    obtain ⟨h1, h2, h3, h4, h5, h6, h7⟩ := treeAt_fill.mp ht
    exact ⟨⟨h1, h2, h3, h4, h5, h7, hk⟩, h6, hnd⟩

theorem TreeAt.congr {s s' : RbTree} {t : Tree Nat} {p : Nat} (h : s.TreeAt t p)
    (heq : ∀ z ∈ t.toList, s'.mem z = s.mem z) (hnil : s'.nil = s.nil) : s'.TreeAt t p := by
  have hptr : ∀ t, s'.ptr t = s.ptr t := fun t => by cases t <;> simp [ptr, hnil]
  induction t generalizing p with
  | nil => trivial
  | node c l x r ihl ihr =>
    obtain ⟨h1, h2, h3, h4⟩ := h
    refine ⟨hnil ▸ h1, ?_, ihl h3 fun z hz => heq z (by simp [hz]),
      ihr h4 fun z hz => heq z (by simp [hz])⟩
    rw [heq x (by simp), h2, hptr, hptr]

theorem CtxAt.congr {s s' : RbTree} {k : Ctx Nat} {q : Nat} (h : s.CtxAt k q)
    (heq : ∀ z, z ∈ Ctx.before k ∨ z ∈ Ctx.after k → s'.mem z = s.mem z) (hnil : s'.nil = s.nil)
    (hroot : s'.root = s.root) : s'.CtxAt k q := by
  have hptr : ∀ t, s'.ptr t = s.ptr t := fun t => by cases t <;> simp [ptr, hnil]
  induction k generalizing q with
  | nil => exact hroot.trans h
  | cons f k ih =>
    obtain ⟨d, c, x, u⟩ := f
    obtain ⟨h1, h2, h3, h4, h5, h6, h7⟩ := h
    have hpar : s'.parentOf k = s.parentOf k := by cases k <;> simp [parentOf, hnil]
    have hx : s'.mem x = s.mem x := heq x (by cases d <;> simp [Ctx.before, Ctx.after])
    refine ⟨hnil ▸ h1, by rw [hx]; exact h2, by rw [hx, hpar]; exact h3, by rw [hx]; exact h4,
      by rw [hx, hptr]; exact h5, h6.congr (fun z hz => heq z ?_) hnil, ih h7 fun z hz => heq z ?_⟩
    · cases d <;> simp [Ctx.before, Ctx.after, hz]
    · cases d <;> simp only [Ctx.before, Ctx.after, List.mem_append] <;> tauto

variable {s s' : RbTree} {k : Ctx Nat} {t : Tree Nat} {d : Side}

/-- Every node of a tree in memory is not the sentinel. -/
theorem TreeAt.ne_nil {p z : Nat} (h : s.TreeAt t p) (hz : z ∈ t.toList) : z ≠ s.nil := by
  induction t generalizing p with
  | nil => exact absurd hz List.not_mem_nil
  | node c l x r ihl ihr =>
    obtain ⟨h1, -, h3, h4⟩ := h
    rcases List.mem_append.mp hz with hz | hz
    · exact ihl h3 hz
    · grind

/-- The pointer to a tree is the sentinel or one of its nodes. -/
theorem ptr_mem (s : RbTree) (t : Tree Nat) :
    (t = .nil ∧ s.ptr t = s.nil) ∨ s.ptr t ∈ t.toList := by
  cases t with
  | nil => exact Or.inl ⟨rfl, rfl⟩
  | node c l x r => exact Or.inr (by simp [ptr])

theorem mem_modify_self (x : Nat) (f : RbNode → RbNode) : (s.modify x f).mem x = f (s.mem x) := by
  simp [modify]

theorem mem_modify_of_ne {x z : Nat} (f : RbNode → RbNode) (h : z ≠ x) :
    (s.modify x f).mem z = s.mem z := by
  simp [modify, h]

/-- A tree with a new parent. -/
theorem TreeAt.reparent {p q : Nat} (h : s.TreeAt t p) (hnd : t.toList.Nodup)
    (hnil : s'.nil = s.nil)
    (hroot : t ≠ .nil → s'.mem (s.ptr t) = (s.mem (s.ptr t)).withParent q)
    (heq : ∀ z ∈ t.toList, z ≠ s.ptr t → s'.mem z = s.mem z) : s'.TreeAt t q := by
  cases t with
  | nil => trivial
  | node c l x r =>
    obtain ⟨h1, h2, h3, h4⟩ := h
    have hptr : ∀ t, s'.ptr t = s.ptr t := fun t => by cases t <;> simp [ptr, hnil]
    have hx : x ∉ l.toList ∧ x ∉ r.toList := by grind [Tree.toList_node]
    have hr := hroot (by simp)
    refine ⟨hnil ▸ h1, ?_, h3.congr (fun z hz => heq z (by simp [hz]) ?_) hnil,
      h4.congr (fun z hz => heq z (by simp [hz]) ?_) hnil⟩
    · change s'.mem x = (s.mem x).withParent q at hr
      rw [hr, h2, hptr, hptr]
      rfl
    · rintro rfl
      exact hx.1 hz
    · rintro rfl
      exact hx.2 hz

/-! ## Pointer updates -/

@[simp] theorem nil_modify (x : Nat) (f : RbNode → RbNode) : (s.modify x f).nil = s.nil := rfl

@[simp] theorem nil_replaceChild (p q r : Nat) : (s.replaceChild p q r).nil = s.nil := by
  unfold replaceChild
  split
  · rfl
  · split <;> rfl

theorem mem_replaceChild_of_ne {p q r z : Nat} (h : z ≠ p ∨ p = s.nil) :
    (s.replaceChild p q r).mem z = s.mem z := by
  unfold replaceChild
  split
  · rfl
  · have hz : z ≠ p := h.resolve_right ‹_›
    split <;> exact mem_modify_of_ne _ hz

theorem parentOf_mem (s : RbTree) (k : Ctx Nat) :
    s.parentOf k = s.nil ∨ s.parentOf k ∈ Ctx.before k ∨ s.parentOf k ∈ Ctx.after k := by
  cases k with
  | nil => exact Or.inl rfl
  | cons f k =>
    obtain ⟨d, c, x, u⟩ := f
    cases d <;> simp [parentOf, Ctx.before, Ctx.after]

/-- The hole of a context gets a new pointer. -/
theorem setChild_ctx {f : Frame Nat} {q q' : Nat} (h : s.CtxAt (f :: k) q)
    (hd : Ctx.Distinct (f :: k)) : (s.setChild f.side f.label q').CtxAt (f :: k) q' := by
  obtain ⟨h1, h2, h3, h4, h5, h6, h7⟩ := h
  obtain ⟨-, -, hs, ⟨hbk, hak⟩, -⟩ := Ctx.distinct_cons.mp hd
  have hoff : ∀ z, z ≠ f.label → (s.setChild f.side f.label q').mem z = s.mem z := fun z hz =>
    mem_modify_of_ne _ hz
  have hself : (s.setChild f.side f.label q').mem f.label =
      (s.mem f.label).withChild f.side q' := mem_modify_self _ _
  refine ⟨h1, ?_, ?_, ?_, ?_, h6.congr (fun z hz => hoff z ?_) rfl,
    h7.congr (fun z hz => hoff z ?_) rfl rfl⟩
  · rw [hself, RbNode.col_withChild, h2]
  · rw [hself, RbNode.parent_withChild, h3]
    cases k <;> rfl
  · rw [hself, RbNode.child_withChild]
  · rw [hself, RbNode.child_withChild_flip, h5]
    cases f.sibling <;> rfl
  · rintro rfl
    exact hs hz
  · rintro rfl
    exact hz.elim hbk hak

theorem replaceChild_ctx {q : Nat} (h : s.CtxAt k q) (hd : Ctx.Distinct k) (q' : Nat)
    (hq : ∀ f ∈ k.head?, s.ptr f.sibling ≠ q) :
    (s.replaceChild (s.parentOf k) q q').CtxAt k q' := by
  cases k with
  | nil =>
    simp only [parentOf, replaceChild, if_true]
    rfl
  | cons f k =>
    have hmod : s.replaceChild f.label q q' = s.setChild f.side f.label q' := by
      obtain ⟨h1, -, -, h4, h5, -, -⟩ := h
      unfold replaceChild
      rw [if_neg h1]
      cases hside : f.side with
      | left =>
        rw [hside] at h4
        exact if_pos h4
      | right =>
        rw [hside] at h5
        refine if_neg ?_
        rw [show (s.mem f.label).left = s.ptr f.sibling from h5]
        exact hq f (by simp)
    change (s.replaceChild f.label q q').CtxAt (f :: k) q'
    rw [hmod]
    exact setChild_ctx h hd

/-! ## Rotation -/

theorem nil_rotateBelow (x y p : Nat) : (s.rotateBelow d x y p).nil = s.nil := by
  unfold rotateBelow
  dsimp only
  split <;> rfl

theorem root_rotateBelow (x y p : Nat) : (s.rotateBelow d x y p).root = s.root := by
  unfold rotateBelow
  dsimp only
  split <;> rfl

section

variable {x y b p : Nat} (hxy : x ≠ y) (hb : (s.mem y).child d = b)
  (hbx : b = s.nil ∨ b ≠ x ∧ b ≠ y)

include hxy hb hbx

theorem rotateBelow_lower :
    (s.rotateBelow d x y p).mem x = (s.mem x).withChild d.flip b := by
  unfold rotateBelow
  dsimp only
  have h1 : ((s.setChild d.flip x ((s.mem y).child d)).mem y).child d = b := by
    rw [setChild, mem_modify_of_ne _ hxy.symm, hb]
  rw [h1, hb, setParent, mem_modify_of_ne _ hxy, setChild, mem_modify_of_ne _ hxy]
  split
  · rename_i hne
    have hbx' : b ≠ x := (hbx.resolve_left hne).1
    rw [setParent, mem_modify_of_ne _ hbx'.symm, setChild, mem_modify_self]
  · rw [setChild, mem_modify_self]

theorem rotateBelow_upper :
    (s.rotateBelow d x y p).mem y = ((s.mem y).withChild d x).withParent p := by
  unfold rotateBelow
  dsimp only
  have h1 : ((s.setChild d.flip x ((s.mem y).child d)).mem y).child d = b := by
    rw [setChild, mem_modify_of_ne _ hxy.symm, hb]
  rw [h1, hb, setParent, mem_modify_self, setChild, mem_modify_self]
  split
  · rename_i hne
    obtain ⟨hbx', hby⟩ := hbx.resolve_left hne
    rw [setParent, mem_modify_of_ne _ hby.symm, setChild, mem_modify_of_ne _ hxy.symm]
  · rw [setChild, mem_modify_of_ne _ hxy.symm]

theorem rotateBelow_middle (hne : b ≠ s.nil) :
    (s.rotateBelow d x y p).mem b = (s.mem b).withParent x := by
  unfold rotateBelow
  dsimp only
  have h1 : ((s.setChild d.flip x ((s.mem y).child d)).mem y).child d = b := by
    rw [setChild, mem_modify_of_ne _ hxy.symm, hb]
  obtain ⟨hbx', hby⟩ := hbx.resolve_left hne
  rw [h1, hb, if_pos (by exact hne), setParent, mem_modify_of_ne _ hby, setChild,
    mem_modify_of_ne _ hby, setParent, mem_modify_self, setChild, mem_modify_of_ne _ hbx']

omit hbx in
theorem rotateBelow_other {z : Nat} (hzx : z ≠ x) (hzy : z ≠ y) (hzb : z ≠ b ∨ b = s.nil) :
    (s.rotateBelow d x y p).mem z = s.mem z := by
  unfold rotateBelow
  dsimp only
  have h1 : ((s.setChild d.flip x ((s.mem y).child d)).mem y).child d = b := by
    rw [setChild, mem_modify_of_ne _ hxy.symm, hb]
  rw [h1, hb, setParent, mem_modify_of_ne _ hzy, setChild, mem_modify_of_ne _ hzy]
  split
  · rename_i hne
    have hzb' : z ≠ b := hzb.resolve_right hne
    rw [setParent, mem_modify_of_ne _ hzb', setChild, mem_modify_of_ne _ hzx]
  · rw [setChild, mem_modify_of_ne _ hzx]

end

theorem toList_rotate {c cy : Color} {x y : Nat} {a b e : Tree Nat} :
    (Frame.fill ⟨d, cy, y, e⟩ (Frame.fill ⟨d, c, x, b⟩ a)).toList =
      (Frame.fill ⟨d, c, x, Frame.fill ⟨d, cy, y, e⟩ b⟩ a).toList := by
  cases d <;> simp [Frame.fill]

/-- A rotation moves a subtree across and keeps the labels in order. -/
theorem rotate_laid {c cy : Color} {x y : Nat} {a b e : Tree Nat}
    (h : s.Laid k (Frame.fill ⟨d, c, x, Frame.fill ⟨d, cy, y, e⟩ b⟩ a)) :
    (s.rotate d x).Laid k (Frame.fill ⟨d, cy, y, e⟩ (Frame.fill ⟨d, c, x, b⟩ a)) ∧
      (s.rotate d x).nil = s.nil ∧ (s.rotate d x).mem s.nil = s.mem s.nil := by
  obtain ⟨hctx, htree, hnodup⟩ := h
  obtain ⟨hx, hxc, hxp, hxa, hxy, hta, htu⟩ := treeAt_fill.mp htree
  obtain ⟨hy, hyc, hyp, hyb, hye, htb, hte⟩ := treeAt_fill.mp htu
  rw [ptr_fill] at hctx hxy
  obtain ⟨hdist, hnd, hout⟩ := nodup_plug_iff.mp hnodup
  simp only [nodup_fill_iff, mem_fill] at hnd hout
  obtain ⟨-, ⟨hndb, -, hyb', hye', hbe⟩, hxa', hxu, hau⟩ := hnd
  simp only [not_or] at hxu hau
  have hbptr : s.ptr b = s.nil ∨ s.ptr b ≠ x ∧ s.ptr b ≠ y := by grind [s.ptr_mem]
  set p := s.parentOf k with hp
  set s₁ := s.rotateBelow d x y p with hs₁
  have hnil₁ : s₁.nil = s.nil := nil_rotateBelow x y p
  have hlow := rotateBelow_lower (p := p) hxu.1 hyb hbptr
  have hup := rotateBelow_upper (p := p) hxu.1 hyb hbptr
  have hmid := rotateBelow_middle (p := p) hxu.1 hyb hbptr
  have hother : ∀ z, z ≠ x → z ≠ y → z ≠ s.ptr b ∨ s.ptr b = s.nil → s₁.mem z = s.mem z :=
    fun z h1 h2 h3 => rotateBelow_other hxu.1 hyb h1 h2 h3
  -- the context is untouched until the subtree is hung below its parent
  have hctx₁ : s₁.CtxAt k x := by grind [hctx.congr, root_rotateBelow, s.ptr_mem]
  have hpar₁ : s₁.parentOf k = p := by
    cases k
    · exact hnil₁
    · rfl
  have hrot : s.rotate d x = (s₁.replaceChild p x y).setParent x y := by
    unfold rotate
    rw [hxy, hxp]
  have hnil : (s.rotate d x).nil = s.nil := by
    rw [hrot, setParent, nil_modify, nil_replaceChild, hnil₁]
  have hptr : ∀ t, (s.rotate d x).ptr t = s.ptr t := fun t => by cases t <;> simp [ptr, hnil]
  -- no node of the subtree is the parent
  have hpne : ∀ z, z = x ∨ z ∈ a.toList ∨ z = y ∨ z ∈ b.toList ∨ z ∈ e.toList →
      z ≠ p ∨ p = s₁.nil := by grind [s.parentOf_mem]
  have hmem : ∀ z, z ≠ x → z ≠ p ∨ p = s₁.nil → (s.rotate d x).mem z = s₁.mem z := by
    intro z hzx hzp
    rw [hrot, setParent, mem_modify_of_ne _ hzx, mem_replaceChild_of_ne hzp]
  have hmemx : (s.rotate d x).mem x = ((s.mem x).withChild d.flip (s.ptr b)).withParent y := by
    rw [hrot, setParent, mem_modify_self, mem_replaceChild_of_ne (hpne x (Or.inl rfl)), hlow]
  have hmemy : (s.rotate d x).mem y = ((s.mem y).withChild d x).withParent p := by
    rw [hmem y (Ne.symm hxu.1) (hpne y (by simp)), hup]
  refine ⟨⟨?_, ?_, ?_⟩, hnil, ?_⟩
  · rw [ptr_fill]
    have hq : ∀ f ∈ k.head?, s₁.ptr f.sibling ≠ x := by
      intro f hf
      cases k with
      | nil => exact absurd hf (by simp)
      | cons g k =>
        obtain rfl : g = f := by simpa using hf
        rcases s₁.ptr_mem g.sibling with ⟨-, hs⟩ | hs
        · rw [hs, hnil₁]
          exact Ne.symm hx
        · intro he
          rw [he] at hs
          have hxk := hout x (Or.inl rfl)
          obtain ⟨dg, cg, xg, ug⟩ := g
          cases dg <;> simp [Ctx.before, Ctx.after, hs] at hxk
    have hctx₂ := replaceChild_ctx hctx₁ hdist y hq
    rw [hpar₁] at hctx₂
    rw [hrot]
    refine hctx₂.congr (fun z hz => mem_modify_of_ne _ ?_) rfl rfl
    rintro rfl
    exact hz.elim (hout _ (Or.inl rfl)).1 (hout _ (Or.inl rfl)).2
  · have hparent : (s.rotate d x).parentOf k = p := by
      cases k
      · exact hnil
      · rfl
    refine treeAt_fill.mpr ⟨hnil ▸ hy, ?_, ?_, ?_, ?_, treeAt_fill.mpr ⟨hnil ▸ hx, ?_, ?_, ?_, ?_,
      hta.congr (fun z hz => ?_) hnil, htb.reparent hndb hnil (fun hb => ?_) fun z hz hzb => ?_⟩,
      hte.congr (fun z hz => ?_) hnil⟩
    · simpa [hmemy] using hyc
    · simp [hmemy, hparent]
    · simp [hmemy, ptr_fill]
    · rw [hmemy, hptr]
      simpa using hye
    · simpa [hmemx] using hxc
    · simp [hmemx]
    · rw [hmemx, hptr]
      simpa using hxa
    · simp [hmemx, hptr]
    · grind [s.ptr_mem]
    · grind [s.ptr_mem, htb.ne_nil]
    · grind
    · grind [s.ptr_mem]
  · rw [toList_plug, toList_rotate, ← toList_plug]
    exact hnodup
  · grind

/-! ## Colours -/

theorem ptr_eq_of_nil (hnil : s'.nil = s.nil) (t : Tree Nat) : s'.ptr t = s.ptr t := by
  cases t <;> simp [ptr, hnil]

theorem parentOf_eq_of_nil (hnil : s'.nil = s.nil) (k : Ctx Nat) :
    s'.parentOf k = s.parentOf k := by
  cases k <;> simp [parentOf, hnil]

/-- Painting the root of the subtree in the hole. -/
theorem setCol_laid {c : Color} {x : Nat} {u : Tree Nat} (h : s.Laid k (Frame.fill ⟨d, c, x, u⟩ t))
    (c' : Color) : (s.setCol x c').Laid k (Frame.fill ⟨d, c', x, u⟩ t) := by
  obtain ⟨hctx, htree, hnodup⟩ := h
  obtain ⟨hx, -, hxp, hxt, hxu, ht, hu⟩ := treeAt_fill.mp htree
  rw [ptr_fill] at hctx
  obtain ⟨hdist, hnd, hout⟩ := nodup_plug_iff.mp hnodup
  obtain ⟨hndt, hndu, hxt', hxu', htu⟩ := nodup_fill_iff.mp hnd
  have hself : (s.setCol x c').mem x = (s.mem x).withCol c' := mem_modify_self _ _
  have hoff : ∀ z, z ≠ x → (s.setCol x c').mem z = s.mem z := fun z hz => mem_modify_of_ne _ hz
  refine ⟨?_, treeAt_fill.mpr ⟨hx, ?_, ?_, ?_, ?_, ?_, ?_⟩, ?_⟩
  · rw [ptr_fill]
    refine hctx.congr (fun z hz => hoff z ?_) rfl rfl
    rintro rfl
    have := hout z (mem_fill.mpr (Or.inl rfl))
    exact hz.elim this.1 this.2
  · rw [hself, RbNode.col_withCol]
  · rw [hself, RbNode.parent_withCol, hxp]
    exact (parentOf_eq_of_nil rfl k).symm
  · rw [hself, RbNode.child_withCol, hxt]
    exact (ptr_eq_of_nil rfl t).symm
  · rw [hself, RbNode.child_withCol, hxu]
    exact (ptr_eq_of_nil rfl u).symm
  · refine ht.congr (fun z hz => hoff z ?_) rfl
    rintro rfl
    exact hxt' hz
  · refine hu.congr (fun z hz => hoff z ?_) rfl
    rintro rfl
    exact hxu' hz
  · grind [nodup_plug_iff, nodup_fill_iff, mem_fill]

theorem setCol_mem_nil {x : Nat} (hx : x ≠ s.nil) (c : Color) :
    (s.setCol x c).mem s.nil = s.mem s.nil := mem_modify_of_ne _ (Ne.symm hx)

theorem laid_append {j : Ctx Nat} : s.Laid (j ++ k) t ↔ s.Laid k (plug j t) := by
  induction j generalizing t with
  | nil => exact Iff.rfl
  | cons f j ih => rw [List.cons_append, laid_cons, ih]; exact Iff.rfl

/-- In a laid out tree, the pointer to the focus is not the pointer to its sibling, unless both
are the sentinel. -/
theorem CtxAt.sibling_ne {q x : Nat} (_h : s.CtxAt k q) (hx : x ≠ s.nil)
    (hout : x ∉ Ctx.before k ∧ x ∉ Ctx.after k) : ∀ f ∈ k.head?, s.ptr f.sibling ≠ x := by
  intro f hf
  cases k with
  | nil => exact absurd hf (by simp)
  | cons g k =>
    obtain rfl : g = f := by simpa using hf
    rcases s.ptr_mem g.sibling with ⟨-, hs⟩ | hs
    · rw [hs]
      exact Ne.symm hx
    · intro he
      rw [he] at hs
      obtain ⟨dg, cg, xg, ug⟩ := g
      cases dg <;> simp [Ctx.before, Ctx.after, hs] at hout

/-- The sentinel is not a node of a context. -/
theorem CtxAt.ne_nil {q z : Nat} (h : s.CtxAt k q) (hz : z ∈ Ctx.before k ∨ z ∈ Ctx.after k) :
    z ≠ s.nil := by
  induction k generalizing q with
  | nil => simp [Ctx.before, Ctx.after] at hz
  | cons f k ih =>
    obtain ⟨d, c, x, u⟩ := f
    obtain ⟨h1, -, -, -, -, h6, h7⟩ := h
    have hcases : z = x ∨ z ∈ u.toList ∨ z ∈ Ctx.before k ∨ z ∈ Ctx.after k := by
      cases d <;> simp only [Ctx.before, Ctx.after, List.mem_append, List.mem_cons,
        List.not_mem_nil, or_false] at hz <;> tauto
    rcases hcases with rfl | hu | hk
    · exact h1
    · exact h6.ne_nil hu
    · exact ih h7 hk

/-! ## Replacement -/

/-- A node with at most one child is replaced by that child. -/
theorem replaceNode_laid {c : Color} {x : Nat} (h : s.Laid k (Frame.fill ⟨d, c, x, .nil⟩ t)) :
    (s.rbtreeReplaceNode x (s.ptr t)).Laid k t ∧
      (s.rbtreeReplaceNode x (s.ptr t)).nil = s.nil ∧
      ((s.rbtreeReplaceNode x (s.ptr t)).mem (s.ptr t)).parent = s.parentOf k ∧
      ((s.rbtreeReplaceNode x (s.ptr t)).mem s.nil).col = (s.mem s.nil).col := by
  obtain ⟨hctx, htree, hnodup⟩ := h
  obtain ⟨hx, -, hxp, -, -, ht, -⟩ := treeAt_fill.mp htree
  rw [ptr_fill] at hctx
  obtain ⟨hdist, hnd, hout⟩ := nodup_plug_iff.mp hnodup
  obtain ⟨hndt, -, hxt', -, -⟩ := nodup_fill_iff.mp hnd
  have hxout := hout x (mem_fill.mpr (Or.inl rfl))
  have htout : ∀ z ∈ t.toList, z ∉ Ctx.before k ∧ z ∉ Ctx.after k := fun z hz =>
    hout z (mem_fill.mpr (Or.inr (Or.inl hz)))
  set s₁ := s.replaceChild (s.parentOf k) x (s.ptr t) with hs₁
  have hnil₁ : s₁.nil = s.nil := nil_replaceChild _ _ _
  have hoff₁ : ∀ z, z ∉ Ctx.before k ∧ z ∉ Ctx.after k → s₁.mem z = s.mem z := by
    grind [mem_replaceChild_of_ne, s.parentOf_mem]
  have hx₁ : (s₁.mem x).parent = s.parentOf k := by rw [hoff₁ x hxout, hxp]
  have heq : s.rbtreeReplaceNode x (s.ptr t) = s₁.setParent (s.ptr t) (s.parentOf k) := by
    unfold rbtreeReplaceNode
    rw [hxp]
    dsimp only
    rw [← hs₁, hx₁]
  have hctx₁ : s₁.CtxAt k (s.ptr t) :=
    replaceChild_ctx hctx hdist _ (hctx.sibling_ne hx hxout)
  have hptrout : ∀ z, z ∈ Ctx.before k ∨ z ∈ Ctx.after k → z ≠ s.ptr t := by
    grind [s.ptr_mem, hctx.ne_nil]
  have hnilout : s.nil ∉ Ctx.before k ∧ s.nil ∉ Ctx.after k :=
    ⟨fun hz => hctx.ne_nil (Or.inl hz) rfl, fun hz => hctx.ne_nil (Or.inr hz) rfl⟩
  have hnil : (s.rbtreeReplaceNode x (s.ptr t)).nil = s.nil := by
    rw [heq, setParent, nil_modify, hnil₁]
  refine ⟨⟨?_, ?_, ?_⟩, hnil, ?_, ?_⟩
  · rw [ptr_eq_of_nil hnil, heq]
    exact hctx₁.congr (fun z hz => mem_modify_of_ne _ (hptrout z hz)) rfl rfl
  · grind [parentOf_eq_of_nil, ht.reparent, mem_modify_self, mem_modify_of_ne, setParent]
  · exact nodup_plug_iff.mpr ⟨hdist, hndt, htout⟩
  · rw [heq, setParent, mem_modify_self, RbNode.parent_withParent]
  · grind [mem_modify_self, RbNode.col_withParent, mem_modify_of_ne, setParent]

theorem takePlace_laid {c : Color} {x y q r₀ : Nat} {l r : Tree Nat} (hctx : s.CtxAt k x)
    (hx : x ≠ s.nil) (hxm : s.mem x = ⟨c, s.parentOf k, s.ptr l, r₀⟩) (hl : s.TreeAt l q)
    (hlne : l ≠ .nil) (hy : y ≠ s.nil) (hyr : (s.mem y).right = s.ptr r) (hr : s.TreeAt r y)
    (hxout : x ∉ Ctx.before k ∧ x ∉ Ctx.after k) (hxy : x ≠ y) (hxl : x ∉ l.toList)
    (hnodup : (plug k (.node c l y r)).toList.Nodup) :
    (s.takePlace x y).Laid k (.node c l y r) ∧ (s.takePlace x y).nil = s.nil ∧
      (s.takePlace x y).mem s.nil = s.mem s.nil := by
  obtain ⟨hdist, hnd, hout⟩ := nodup_plug_iff.mp hnodup
  obtain ⟨hndl, hndr, hyl, hyr', hlr⟩ := nodup_fill_iff (d := .left) (c := c) (x := y).mp hnd
  have hmemfill : ∀ z, z = y ∨ z ∈ l.toList ∨ z ∈ r.toList → z ∉ Ctx.before k ∧ z ∉ Ctx.after k :=
    fun z hz => hout z (mem_fill (d := .left).mpr hz)
  have hlp : s.ptr l ∈ l.toList := (s.ptr_mem l).resolve_left fun h => hlne h.1
  have hlx : s.ptr l ≠ x := fun he => hxl (he ▸ hlp)
  have hly : s.ptr l ≠ y := fun he => hyl (he ▸ hlp)
  set p := s.parentOf k with hp
  set s₁ := s.replaceChild p x y with hs₁
  have hnil₁ : s₁.nil = s.nil := nil_replaceChild _ _ _
  have hoff₁ : ∀ z, z ∉ Ctx.before k ∧ z ∉ Ctx.after k → s₁.mem z = s.mem z := by
    grind [mem_replaceChild_of_ne, s.parentOf_mem]
  have hx₁ : s₁.mem x = ⟨c, p, s.ptr l, r₀⟩ := by rw [hoff₁ x hxout, hxm]
  have heq : s.takePlace x y =
      (((s₁.setParent y p).setChild .left y (s.ptr l)).setParent (s.ptr l) y).setCol y c := by
    have h1 : s.rbtreeReplaceNode x y = s₁.setParent y p := by grind [rbtreeReplaceNode]
    have h2 : ((s₁.setParent y p).mem x) = ⟨c, p, s.ptr l, r₀⟩ := by
      rw [setParent, mem_modify_of_ne _ hxy, hx₁]
    have h3 : (((s₁.setParent y p).setChild .left y (s.ptr l)).mem y).left = s.ptr l := by
      rw [setChild, mem_modify_self]
      rfl
    have h4 : (((s₁.setParent y p).setChild .left y (s.ptr l)).setParent (s.ptr l) y).mem x =
        ⟨c, p, s.ptr l, r₀⟩ := by
      rw [setParent, mem_modify_of_ne _ (Ne.symm hlx), setChild, mem_modify_of_ne _ hxy, h2]
    unfold takePlace
    dsimp only
    rw [h1, h2, h3, h4]
  have hoff : ∀ z, z ≠ y → z ≠ s.ptr l → (s.takePlace x y).mem z = s₁.mem z := by
    grind [mem_modify_of_ne, setCol, setParent, setChild]
  have hym : (s.takePlace x y).mem y = ⟨c, p, s.ptr l, s.ptr r⟩ := by
    rw [heq, setCol, mem_modify_self, setParent, mem_modify_of_ne _ (Ne.symm hly), setChild,
      mem_modify_self, setParent, mem_modify_self, hoff₁ y (hmemfill y (Or.inl rfl)), ← hyr]
    rfl
  have hlm : (s.takePlace x y).mem (s.ptr l) = (s.mem (s.ptr l)).withParent y := by
    grind [mem_modify_of_ne, mem_modify_self, setCol, setParent, setChild]
  have hnil : (s.takePlace x y).nil = s.nil := by
    rw [heq]
    exact hnil₁
  have hroot : (s.takePlace x y).root = s₁.root := by
    rw [heq]
    rfl
  have hctx₁ : s₁.CtxAt k y := replaceChild_ctx hctx hdist _ (hctx.sibling_ne hx hxout)
  refine ⟨⟨?_, ⟨hnil ▸ hy, ?_, ?_, ?_⟩, hnodup⟩, hnil, ?_⟩
  · refine hctx₁.congr (fun z hz => hoff z ?_ ?_) (hnil.trans hnil₁.symm) hroot
    · grind
    · grind
  · rw [hym, ptr_eq_of_nil hnil, ptr_eq_of_nil hnil, parentOf_eq_of_nil hnil]
  · grind [hl.reparent]
  · grind [hr.congr]
  · grind [hctx.ne_nil, hl.ne_nil]

/-- The successor is the right child. -/
theorem deleteReplace_child {c cy : Color} {x y : Nat} {l ry : Tree Nat}
    (h : s.Laid k (.node c l x (.node cy .nil y ry))) (hl : l ≠ .nil) :
    (s.deleteReplace x y).Laid k (.node c l y ry) ∧ (s.deleteReplace x y).nil = s.nil ∧
      ((s.deleteReplace x y).mem s.nil).col = (s.mem s.nil).col ∧
      (ry = .nil → ((s.deleteReplace x y).mem s.nil).parent = y) := by
  obtain ⟨hctx, ⟨hx, hxm, htl, hy, hym, -, htr⟩, hnodup⟩ := h
  change s.CtxAt k x at hctx
  obtain ⟨hdist, hnd, hout⟩ := nodup_plug_iff.mp hnodup
  simp only [Tree.toList_node, Tree.toList_nil, List.nil_append, List.nodup_append,
    List.nodup_cons, List.mem_append, List.mem_cons] at hnd hout
  obtain ⟨hndl, ⟨hxyr, hyry, hndr⟩, hlcross⟩ := hnd
  rw [not_or] at hxyr
  have hlp : s.ptr l ∈ l.toList := (s.ptr_mem l).resolve_left fun h => hl h.1
  have hlx : s.ptr l ≠ x := hlcross _ hlp x (Or.inl rfl)
  have hly : s.ptr l ≠ y := hlcross _ hlp y (Or.inr (Or.inl rfl))
  have hln : s.ptr l ≠ s.nil := htl.ne_nil hlp
  have hrx : s.ptr ry ≠ x := by grind [s.ptr_mem]
  have hry : s.ptr ry ≠ y := by grind [s.ptr_mem]
  set s₁ := ((s.setParent (s.ptr l) y).setChild .left y (s.ptr l)).setParent (s.ptr ry) y with hs₁
  have heq : s.deleteReplace x y = s₁.takePlace x y := by
    have h1 : ((s.setParent (s.ptr l) y).mem x) = s.mem x := mem_modify_of_ne _ (Ne.symm hlx)
    unfold deleteReplace
    dsimp only
    rw [hym]
    rw [if_pos rfl, hxm]
    rw [h1, hxm]
  have hoff : ∀ z, z ≠ s.ptr l → z ≠ y → z ≠ s.ptr ry → s₁.mem z = s.mem z := by
    grind [mem_modify_of_ne, setParent, setChild]
  have hctxout : ∀ z, z ∈ Ctx.before k ∨ z ∈ Ctx.after k → s₁.mem z = s.mem z := by
    grind [s.ptr_mem, hctx.ne_nil]
  have hx₁ : s₁.mem x = ⟨c, s.parentOf k, s.ptr l, y⟩ := by
    rw [hoff x (Ne.symm hlx) hxyr.1 (Ne.symm hrx), hxm]
    rfl
  have hrl : s.ptr ry ≠ s.ptr l := by grind [s.ptr_mem]
  have hy₁ : (s₁.mem y).right = s.ptr ry := by
    rw [hs₁, setParent, mem_modify_of_ne _ (Ne.symm hry), setChild, mem_modify_self, setParent,
      mem_modify_of_ne _ (Ne.symm hly), hym]
    rfl
  have htl₁ : s₁.TreeAt l y := by
    refine htl.reparent hndl rfl (fun _ => ?_) fun z hz hzl => hoff z hzl ?_ ?_
    · grind [mem_modify_of_ne, mem_modify_self, setParent, setChild]
    · exact hlcross z hz y (Or.inr (Or.inl rfl))
    · grind [s.ptr_mem, htl.ne_nil]
  have hmidr : s₁.mem (s.ptr ry) = (s.mem (s.ptr ry)).withParent y := by
    rw [hs₁, setParent, mem_modify_self, setChild, mem_modify_of_ne _ hry, setParent,
      mem_modify_of_ne _ hrl]
  have htr₁ : s₁.TreeAt ry y := by
    refine htr.reparent hndr rfl (fun _ => hmidr) fun z hz hzr => hoff z ?_ ?_ hzr
    · rintro rfl
      exact hlcross _ hlp _ (Or.inr (Or.inr hz)) rfl
    · rintro rfl
      exact hyry hz
  have hnodup' : (plug k (.node c l y ry)).toList.Nodup := by
    refine hnodup.sublist ?_
    rw [toList_plug, toList_plug]
    refine (List.Sublist.refl _).append (List.Sublist.append ?_ (List.Sublist.refl _))
    exact (List.Sublist.refl _).append (List.sublist_cons_self _ _)
  have hptr₁ : ∀ t, s₁.ptr t = s.ptr t := ptr_eq_of_nil rfl
  have hpar₁ : s₁.parentOf k = s.parentOf k := parentOf_eq_of_nil rfl k
  obtain ⟨hlaid, hnil, hmem⟩ := takePlace_laid (s := s₁) (hctx.congr hctxout rfl rfl) hx
    (by rw [hx₁, hptr₁, hpar₁]) htl₁ hl hy (hy₁.trans (hptr₁ ry).symm) htr₁
      (hout x (Or.inr (Or.inl rfl))) hxyr.1
    (fun hz => hlcross x hz x (Or.inl rfl) rfl) hnodup'
  rw [heq]
  refine ⟨hlaid, hnil, ?_, fun hry' => ?_⟩
  · change (((s₁.takePlace x y).mem s₁.nil)).col = _
    rw [hmem]
    by_cases hp : s.nil = s.ptr ry
    · change (s₁.mem s.nil).col = _
      rw [hp, hmidr]
      rfl
    · exact congrArg RbNode.col (hoff _ (Ne.symm hln) (Ne.symm hy) hp)
  · change (((s₁.takePlace x y).mem s₁.nil)).parent = _
    rw [hmem]
    have hp : s.ptr ry = s.nil := by rw [hry']; rfl
    change (s₁.mem s.nil).parent = y
    rw [← hp, hmidr, RbNode.parent_withParent]

/-- The successor lies deeper. -/
theorem deleteReplace_deep {c cy : Color} {x y : Nat} {l ry : Tree Nat} {f : Frame Nat}
    {j : Ctx Nat} (h : s.Laid k (.node c l x (plug (f :: j) (.node cy .nil y ry))))
    (hl : l ≠ .nil) :
    (s.deleteReplace x y).Laid k (.node c l y (plug (f :: j) ry)) ∧
      (s.deleteReplace x y).nil = s.nil ∧
      ((s.deleteReplace x y).mem s.nil).col = (s.mem s.nil).col ∧
      (ry = .nil → ((s.deleteReplace x y).mem s.nil).parent = f.label) := by
  -- first the successor is taken out
  have hfocus : s.Laid ((f :: j) ++ ⟨.right, c, x, l⟩ :: k)
    (Frame.fill ⟨.right, cy, y, .nil⟩ ry) := by
    rw [laid_append, laid_cons]
    exact h
  obtain ⟨hlaid₁, hnil₁, hpar₁, hcol₁⟩ := replaceNode_laid hfocus
  set s₁ := s.rbtreeReplaceNode y (s.ptr ry) with hs₁
  have htree := treeAt_fill.mp hfocus.tree
  have hy : y ≠ s.nil := htree.1
  have hyp : (s.mem y).parent = f.label := htree.2.2.1
  have hyr : (s.mem y).right = s.ptr ry := htree.2.2.2.1
  have hfresh : y ∉ (plug k (.node c l x (plug (f :: j) ry))).toList := by
    obtain ⟨-, hnd, hout⟩ := nodup_plug_iff.mp hfocus.nodup
    have hyry := (nodup_fill_iff.mp hnd).2.2.1
    have hyout := hout y (mem_fill.mpr (Or.inl rfl))
    have hplug : plug k (.node c l x (plug (f :: j) ry)) =
        plug ((f :: j) ++ ⟨.right, c, x, l⟩ :: k) ry := by
      rw [plug_append]
      rfl
    rw [hplug, toList_plug, List.mem_append, List.mem_append]
    rintro (hz | hz | hz)
    · exact hyout.1 hz
    · exact hyry hz
    · exact hyout.2 hz
  have hfr : f.label ∈ (plug (f :: j) ry).toList := by
    rw [toList_plug, List.mem_append, List.mem_append]
    obtain ⟨df, cf, xf, uf⟩ := f
    cases df <;> simp [Ctx.before, Ctx.after]
  rw [laid_append, laid_cons] at hlaid₁
  set r := plug (f :: j) ry with hr
  obtain ⟨hctx, htree₁, hnodup⟩ := hlaid₁
  obtain ⟨hx, hxm, htl, htr⟩ : s₁.TreeAt (.node c l x r) (s₁.parentOf k) := htree₁
  obtain ⟨-, hnd, hout⟩ := nodup_plug_iff.mp hnodup
  obtain ⟨hndr, hndl, hxr, hxl, hrl⟩ := nodup_fill_iff.mp hnd
  simp only [mem_fill] at hout
  rw [toList_plug, List.mem_append, List.mem_append, not_or, not_or] at hfresh
  obtain ⟨hyb, hyt, hya⟩ := hfresh
  rw [show Tree.node c l x r = Frame.fill ⟨.right, c, x, l⟩ r from rfl, mem_fill, not_or,
    not_or] at hyt
  obtain ⟨hyx, hyr', hyl⟩ := hyt
  have hrp : s₁.ptr r ∈ r.toList := (s₁.ptr_mem r).resolve_left fun h => by
    rw [h.1] at hfr
    exact absurd hfr List.not_mem_nil
  have hry : s₁.ptr r ≠ y := fun he => hyr' (he ▸ hrp)
  set s₂ := (s₁.setChild .right y (s₁.ptr r)).setParent (s₁.ptr r) y with hs₂
  have heq : s.deleteReplace x y = s₂.takePlace x y := by
    have h1 : ((s₁.setChild .right y (s₁.ptr r)).mem y).right = s₁.ptr r := by
      rw [setChild, mem_modify_self]
      rfl
    have h2 : ¬ (s.mem y).parent = x := by
      rw [hyp]
      intro he
      exact hxr (he ▸ hfr)
    unfold deleteReplace
    dsimp only
    rw [if_neg h2, hyr, ← hs₁, hxm]
    rw [h1]
  have hoff : ∀ z, z ≠ y → z ≠ s₁.ptr r → s₂.mem z = s₁.mem z := by
    intro z h1 h2
    rw [hs₂, setParent, mem_modify_of_ne _ h2, setChild, mem_modify_of_ne _ h1]
  have hptr₂ : ∀ t, s₂.ptr t = s₁.ptr t := ptr_eq_of_nil rfl
  have hpar₂ : s₂.parentOf k = s₁.parentOf k := parentOf_eq_of_nil rfl k
  have hx₂ : s₂.mem x = ⟨c, s₂.parentOf k, s₂.ptr l, s₁.ptr r⟩ := by grind
  have hyr₂ : (s₂.mem y).right = s₂.ptr r := by
    rw [hptr₂, hs₂, setParent, mem_modify_of_ne _ (Ne.symm hry), setChild, mem_modify_self]
    rfl
  have hctx₂ : s₂.CtxAt k x := by
    refine hctx.congr (fun z hz => hoff z ?_ ?_) rfl rfl
    · rintro rfl
      exact hz.elim hyb hya
    · grind
  have htl₂ : s₂.TreeAt l x := by
    refine htl.congr (fun z hz => hoff z ?_ ?_) rfl
    · rintro rfl
      exact hyl hz
    · rintro rfl
      exact hrl _ hrp hz
  have htr₂ : s₂.TreeAt r y := by
    refine htr.reparent hndr rfl (fun _ => ?_) fun z hz hzr => hoff z ?_ hzr
    · rw [hs₂, setParent, mem_modify_self, setChild, mem_modify_of_ne _ hry]
    · rintro rfl
      exact hyr' hz
  have hnodup₂ : (plug k (.node c l y r)).toList.Nodup := by
    refine nodup_plug_iff.mpr ⟨(nodup_plug_iff.mp hnodup).1,
      nodup_fill_iff (d := .right) (t := r) (u := l).mpr ⟨hndr, hndl, hyr', hyl, hrl⟩, ?_⟩
    intro z hz
    rcases mem_fill (d := .right) (t := r) (u := l).mp hz with rfl | hz
    · exact ⟨hyb, hya⟩
    · exact hout z (Or.inr hz)
  obtain ⟨hlaid, hnil, hmem⟩ := takePlace_laid (s := s₂) hctx₂ hx hx₂ htl₂ hl (hnil₁ ▸ hy) hyr₂
    htr₂ (hout x (Or.inl rfl)) (Ne.symm hyx) hxl hnodup₂
  have hnil₂ : s₂.mem s.nil = s₁.mem s.nil := by grind [htr.ne_nil]
  rw [show s₂.nil = s.nil from hnil₁] at hmem
  rw [heq]
  refine ⟨hlaid, hnil.trans hnil₁, ?_, fun hry' => ?_⟩
  · rw [hmem, hnil₂, hcol₁]
  · have hp : s.ptr ry = s.nil := by rw [hry']; rfl
    rw [hp] at hpar₁
    rw [hmem, hnil₂, hpar₁]
    rfl

end RbTree

end Ukernel.Lib
