import Ukernel.Lib.RbtreeLayout

/-!
# Insertion into a pointer red-black tree

The loop of `insert_fixup` climbs the tree with a context that gets shorter: each pass keeps the
balance of everything but the red node at the hole.

## Main definitions

* `RbTree.SameNil`: the sentinel is left alone
* `RbTree.Represents s t`: the memory of `s` is the tree `t`, with a black sentinel
* `RbTree.TotalPreorder cmp`: the order of a comparator is a total preorder

## Main results

* `RbTree.insertFixup_spec`: the loop leaves a tree that only lacks a black root
* `RbTree.rbtreeInsert_spec`: insertion returns, and keeps balance and order
-/

namespace Ukernel.Lib

theorem Frame.fill_flip {α : Type*} (d : Side) (c : Color) (x : α) (t u : Tree α) :
    Frame.fill ⟨d.flip, c, x, u⟩ t = Frame.fill ⟨d, c, x, t⟩ u := by
  cases d <;> rfl

theorem Balanced.fill_red {α : Type*} {d : Side} {x : α} {t u : Tree α} {n : Nat}
    (ht : Balanced t .black n) (hu : Balanced u .black n) :
    Balanced (Frame.fill ⟨d, .red, x, u⟩ t) .red n := by
  cases d
  · exact .red ht hu
  · exact .red hu ht

theorem Balanced.fill_black {α : Type*} {d : Side} {x : α} {t u : Tree α} {n : Nat} {ct cu : Color}
    (ht : Balanced t ct n) (hu : Balanced u cu n) :
    Balanced (Frame.fill ⟨d, .black, x, u⟩ t) .black (n + 1) := by
  cases d
  · exact .black ht hu
  · exact .black hu ht

theorem Balanced.exists_fill_red {α : Type*} (d : Side) {t : Tree α} {n : Nat}
    (h : Balanced t .red n) :
    ∃ x a b, t = Frame.fill ⟨d, .red, x, b⟩ a ∧ Balanced a .black n ∧ Balanced b .black n := by
  obtain ⟨l, x, r, rfl, hl, hr⟩ := h.exists_red
  cases d
  · exact ⟨x, l, r, rfl, hl, hr⟩
  · exact ⟨x, r, l, rfl, hr, hl⟩

theorem Balanced.exists_fill_black {α : Type*} (d : Side) {t : Tree α} {n : Nat}
    (h : Balanced t .black (n + 1)) :
    ∃ x a b ca cb, t = Frame.fill ⟨d, .black, x, b⟩ a ∧ Balanced a ca n ∧ Balanced b cb n := by
  obtain ⟨l, x, r, cl, cr, rfl, hl, hr⟩ := h.exists_black
  cases d
  · exact ⟨x, l, r, cl, cr, rfl, hl, hr⟩
  · exact ⟨x, r, l, cr, cl, rfl, hr, hl⟩

theorem Balanced.paint_of_black {α : Type*} {t : Tree α} {n : Nat} (h : Balanced t .black n) :
    t.paint .black = t := by
  cases h <;> rfl

namespace RbTree

variable {s s' : RbTree} {k : Ctx Nat} {t u : Tree Nat} {d : Side} {x : Nat} {c : Color}

/-- The sentinel is left alone. -/
structure SameNil (s s' : RbTree) : Prop where
  nil : s'.nil = s.nil
  mem : s'.mem s.nil = s.mem s.nil

theorem SameNil.trans {s₁ s₂ s₃ : RbTree} (h : SameNil s₁ s₂) (h' : SameNil s₂ s₃) :
    SameNil s₁ s₃ :=
  ⟨h'.nil.trans h.nil, (h.nil ▸ h'.mem).trans h.mem⟩

theorem Laid.setCol (h : s.Laid k (Frame.fill ⟨d, c, x, u⟩ t)) (c' : Color) :
    (s.setCol x c').Laid k (Frame.fill ⟨d, c', x, u⟩ t) ∧ SameNil s (s.setCol x c') :=
  ⟨setCol_laid h c', rfl, setCol_mem_nil (treeAt_fill.mp h.tree).1 c'⟩

theorem Laid.rotate {cy : Color} {y : Nat} {a b e : Tree Nat}
    (h : s.Laid k (Frame.fill ⟨d, c, x, Frame.fill ⟨d, cy, y, e⟩ b⟩ a)) :
    (s.rotate d x).Laid k (Frame.fill ⟨d, cy, y, e⟩ (Frame.fill ⟨d, c, x, b⟩ a)) ∧
      SameNil s (s.rotate d x) :=
  ⟨(rotate_laid h).1, (rotate_laid h).2.1, (rotate_laid h).2.2⟩

/-- The fields of the node above the hole. -/
theorem Laid.above {f : Frame Nat} (h : s.Laid (f :: k) t) :
    f.label ≠ s.nil ∧ (s.mem f.label).col = f.color ∧ (s.mem f.label).parent = s.parentOf k ∧
      (s.mem f.label).child f.side = s.ptr t ∧
      (s.mem f.label).child f.side.flip = s.ptr f.sibling :=
  ⟨h.ctx.1, h.ctx.2.1, h.ctx.2.2.1, h.ctx.2.2.2.1, h.ctx.2.2.2.2.1⟩

theorem Laid.up {f : Frame Nat} (h : s.Laid (f :: k) t) : s.Laid k (f.fill t) := laid_cons.mp h

theorem Laid.down {f : Frame Nat} (h : s.Laid k (f.fill t)) : s.Laid (f :: k) t := laid_cons.mpr h

/-- From a node's sibling one gets back by the flipped frame. -/
theorem Laid.across (h : s.Laid (⟨d, c, x, u⟩ :: k) t) : s.Laid (⟨d.flip, c, x, t⟩ :: k) u := by
  refine Laid.down ?_
  rw [Frame.fill_flip]
  exact h.up

theorem Laid.parent (h : s.Laid k t) (ht : t ≠ .nil) :
    (s.mem (s.ptr t)).parent = s.parentOf k := by
  cases t with
  | nil => exact absurd rfl ht
  | node c l x r =>
    change (s.mem x).parent = _
    rw [h.tree.2.1]

/-- The colour of a subtree can be read off its pointer. -/
theorem Laid.col_ptr (h : s.Laid k t) (hnil : (s.mem s.nil).col = .black) :
    (s.mem (s.ptr t)).col = t.color := by
  cases t with
  | nil => exact hnil
  | node c l x r =>
    change (s.mem x).col = c
    rw [h.tree.2.1]

/-- The pointers to the two children of a node differ when one of them is a node. -/
theorem Laid.ptr_ne_sibling (h : s.Laid (⟨d, c, x, u⟩ :: k) t) (hu : u ≠ .nil) :
    s.ptr u ≠ s.ptr t := by
  have hup := h.up
  obtain ⟨-, -, -, -, -, -, htu⟩ := treeAt_fill.mp hup.tree
  have hu' : s.ptr u ∈ u.toList := (s.ptr_mem u).resolve_left fun hn => hu hn.1
  obtain ⟨-, hnd, -⟩ := nodup_plug_iff.mp hup.nodup
  have hdisj := (nodup_fill_iff.mp hnd).2.2.2.2
  rcases s.ptr_mem t with ⟨-, ht⟩ | ht
  · rw [ht]
    exact htu.ne_nil hu'
  · intro he
    exact hdisj _ ht (he ▸ hu')

/-- Which child a node is, as the source asks it. -/
theorem Laid.side_eq (h : s.Laid (⟨d, c, x, u⟩ :: k) t) (hne : s.ptr u ≠ s.ptr t) :
    (if (s.mem x).left = s.ptr t then Side.left else Side.right) = d := by
  obtain ⟨-, -, -, hd, hf⟩ := h.above
  cases d with
  | left => exact if_pos hd
  | right =>
    refine if_neg ?_
    rw [show (s.mem x).left = s.ptr u from hf]
    exact hne

@[simp] theorem parent_setCol (s : RbTree) (y z : Nat) (c : Color) :
    ((s.setCol y c).mem z).parent = (s.mem z).parent := by
  by_cases h : z = y
  · rw [h, RbTree.setCol, mem_modify_self, RbNode.parent_withCol]
  · rw [RbTree.setCol, mem_modify_of_ne _ h]

@[simp] theorem child_setCol (s : RbTree) (y z : Nat) (c : Color) (d : Side) :
    ((s.setCol y c).mem z).child d = (s.mem z).child d := by
  by_cases h : z = y
  · rw [h, RbTree.setCol, mem_modify_self, RbNode.child_withCol]
  · rw [RbTree.setCol, mem_modify_of_ne _ h]

/-! ## Insertion -/

section Insert

variable {p g : Nat} {b : Tree Nat} {n : Nat}

/-- The last rotation of `insert_fixup`, for a node on the outside. -/
theorem insertRotate_outer (h : s.Laid (⟨d, .red, p, b⟩ :: ⟨d, .black, g, u⟩ :: k) t) :
    let s₁ := s.setCol p .black
    let s₂ := s₁.setCol g .red
    (s₂.rotate d.flip g).Laid k
        (Frame.fill ⟨d.flip, .black, p, t⟩ (Frame.fill ⟨d.flip, .red, g, b⟩ u)) ∧
      SameNil s (s₂.rotate d.flip g) := by
  intro s₁ s₂
  obtain ⟨h₁, hn₁⟩ := h.up.setCol .black
  obtain ⟨h₂, hn₂⟩ := h₁.up.setCol .red
  have h₂' : s₂.Laid k (Frame.fill ⟨d.flip, .red, g, Frame.fill ⟨d.flip, .black, p, t⟩ b⟩ u) := by
    rw [Frame.fill_flip, Frame.fill_flip]
    exact h₂
  obtain ⟨h₃, hn₃⟩ := h₂'.rotate
  exact ⟨h₃, (hn₁.trans hn₂).trans hn₃⟩

/-- A pass of `insert_fixup` with a black uncle. -/
theorem insertRotate_laid {d₀ : Side} (h : s.Laid (⟨d₀, .red, p, b⟩ :: ⟨d, .black, g, u⟩ :: k) t)
    (ht : Balanced t .red n) (hb : Balanced b .black n) (hu : Balanced u .black n) :
    ∃ t', (s.insertRotate d (s.ptr t)).Laid k t' ∧ SameNil s (s.insertRotate d (s.ptr t)) ∧
      Balanced t' .black (n + 1) ∧
      (plug k t').toList = (plug (⟨d₀, .red, p, b⟩ :: ⟨d, .black, g, u⟩ :: k) t).toList := by
  have htne : t ≠ .nil := by
    rintro rfl
    cases ht
  have hp : (s.mem (s.ptr t)).parent = p := h.parent htne
  have hg : (s.mem p).parent = g := h.above.2.2.1
  have hchild : (s.mem p).child d₀ = s.ptr t := h.above.2.2.2.1
  have hother : (s.mem p).child d₀.flip = s.ptr b := h.above.2.2.2.2
  unfold insertRotate
  rw [hp]
  by_cases hd : d₀ = d
  · subst hd
    have hturn : ¬ s.ptr t = (s.mem p).child d₀.flip := by
      rw [hother]
      exact h.across.ptr_ne_sibling htne
    simp only [if_neg hturn, hp, parent_setCol, hg]
    obtain ⟨hlaid, hnil⟩ := insertRotate_outer h
    refine ⟨_, hlaid, hnil, (hu.fill_red hb).fill_black ht, ?_⟩
    rw [plug, plug, toList_plug, toList_plug]
    cases d₀ <;> simp [Frame.fill, Side.flip]
  · -- the node is on the inside: one rotation brings its parent to the outside
    obtain rfl : d₀ = d.flip := by cases d₀ <;> cases d <;> simp_all [Side.flip]
    obtain ⟨x, a, e, rfl, ha, he⟩ := ht.exists_fill_red d
    have h₁ : s.Laid (⟨d, .black, g, u⟩ :: k)
        (Frame.fill ⟨d, .red, p, Frame.fill ⟨d, .red, x, e⟩ a⟩ b) := by
      rw [← Frame.fill_flip]
      exact h.up
    obtain ⟨h₂, hn₂⟩ := h₁.rotate
    have h₃ := h₂.down
    have hp₃ : ((s.rotate d p).mem p).parent = x := by
      have := h₃.parent (by cases d <;> simp [Frame.fill])
      rwa [ptr_fill] at this
    have hx₃ : ((s.rotate d p).mem x).parent = g := h₃.above.2.2.1
    obtain ⟨hlaid, hnil⟩ := insertRotate_outer h₃
    simp only [if_pos hchild.symm, parent_setCol, hp₃, hx₃]
    refine ⟨_, hlaid, hn₂.trans hnil, (hu.fill_red he).fill_black (hb.fill_red ha), ?_⟩
    rw [plug, plug, toList_plug, toList_plug]
    cases d <;> simp [Frame.fill, Side.flip]

/-- A pass of `insert_fixup` with a red uncle. -/
theorem insertRecolor_laid {d₀ : Side}
    (h : s.Laid (⟨d₀, .red, p, b⟩ :: ⟨d, .black, g, u⟩ :: k) t) (ht : Balanced t .red n)
    (hb : Balanced b .black n) (hu : Balanced u .red n) :
    ∃ t', (s.insertRecolor (s.ptr t) (s.ptr u)).Laid k t' ∧
      SameNil s (s.insertRecolor (s.ptr t) (s.ptr u)) ∧ s.ptr t' = g ∧ Balanced t' .red (n + 1) ∧
      (plug k t').toList = (plug (⟨d₀, .red, p, b⟩ :: ⟨d, .black, g, u⟩ :: k) t).toList := by
  have hp : (s.mem (s.ptr t)).parent = p := h.parent (by rintro rfl; cases ht)
  have hg : (s.mem p).parent = g := h.above.2.2.1
  obtain ⟨l, y, r, rfl, hl, hr⟩ := hu.exists_red
  unfold insertRecolor
  simp only [hp, parent_setCol, hg]
  -- the parent, the uncle, the grandparent
  obtain ⟨h₁, hn₁⟩ := h.up.setCol .black
  obtain ⟨h₂, hn₂⟩ := h₁.across.setCol (d := .left) .black
  obtain ⟨h₃, hn₃⟩ := h₂.across.up.setCol .red
  refine ⟨_, h₃, (hn₁.trans hn₂).trans hn₃, ptr_fill _ _,
    (ht.fill_black hb).fill_red (.black hl hr), ?_⟩
  rw [plug, plug, toList_plug, toList_plug]
  cases d <;> cases d₀ <;> simp [Frame.fill]

/-- `insert_fixup` ends with a tree that only lacks a black root. -/
theorem insertFixup_spec (fuel : Nat) (h : s.Laid k t) (ht : Balanced t .red n)
    (hk : HoleBalanced k .black n) (hnil : (s.mem s.nil).col = .black) (hfuel : k.length < fuel) :
    ∃ s' t', insertFixup fuel s (s.ptr t) = some s' ∧ s'.Laid [] t' ∧ SameNil s s' ∧
      (∃ m, Balanced (t'.paint .black) .black m) ∧ t'.toList = (plug k t).toList := by
  induction fuel generalizing s k t n with
  | zero => exact absurd hfuel (Nat.not_lt_zero _)
  | succ fuel ih =>
    have hpar : (s.mem (s.ptr t)).parent = s.parentOf k := h.parent (by rintro rfl; cases ht)
    unfold insertFixup
    rw [hpar]
    cases k with
    | nil =>
      rw [if_neg (by simp [parentOf])]
      exact ⟨s, t, rfl, h, ⟨rfl, rfl⟩, ⟨_, ht.paint_black⟩, rfl⟩
    | cons f k =>
      obtain ⟨d₀, cf, p, b⟩ := f
      obtain ⟨hpne, hpc, hpp, hpt, hpb⟩ := h.above
      cases cf with
      | black =>
        rw [if_neg (by simp [parentOf, hpc])]
        refine ⟨s, plug (⟨d₀, .black, p, b⟩ :: k) t, rfl, ?_, ⟨rfl, rfl⟩, ?_, rfl⟩
        · exact laid_append.mp (by rwa [List.append_nil])
        · obtain ⟨m, hm⟩ := HoleBalanced.plug (k := ⟨d₀, .black, p, b⟩ :: k) (c := .red) hk ht
          exact ⟨m, by rwa [hm.paint_of_black]⟩
      | red =>
        obtain ⟨-, hb, hk'⟩ := hk
        obtain ⟨d, g, u, k, rfl, ⟨cu, hu⟩, hk''⟩ := hk'.of_red
        have hup := h.up
        have hfne : Frame.fill ⟨d₀, .red, p, b⟩ t ≠ .nil := by cases d₀ <;> simp [Frame.fill]
        have hside := hup.side_eq (hup.across.ptr_ne_sibling hfne).symm
        rw [ptr_fill] at hside
        have hgu : (s.mem g).child d.flip = s.ptr u := hup.above.2.2.2.2
        have hcol : (s.mem (s.ptr u)).col = cu := by
          rw [hup.across.col_ptr hnil, hu.color_eq]
        have hpp' : (s.mem p).parent = g := hpp
        simp only [parentOf, ne_eq, hpne, not_false_eq_true, hpc, and_self, if_true, hpp', hside,
          hgu, hcol]
        cases cu with
        | red =>
          obtain ⟨t₁, h₁, hn₁, hptr, hbal, hlist⟩ := insertRecolor_laid h ht hb hu
          obtain ⟨s', t', hs', hlaid, hn, hm, hlist'⟩ := ih h₁ hbal hk''
            (by rw [hn₁.nil, hn₁.mem, hnil]) (by simp only [List.length_cons] at hfuel; omega)
          rw [ptr_eq_of_nil hn₁.nil, hptr] at hs'
          exact ⟨s', t', hs', hlaid, hn₁.trans hn, hm, hlist'.trans hlist⟩
        | black =>
          obtain ⟨t₁, h₁, hn₁, hbal, hlist⟩ := insertRotate_laid h ht hb hu
          refine ⟨_, plug k t₁, rfl, ?_, hn₁, ?_, hlist⟩
          · exact laid_append.mp (by rwa [List.append_nil])
          · obtain ⟨m, hm⟩ := hk''.plug hbal
            exact ⟨m, by rwa [hm.paint_of_black]⟩

end Insert

theorem length_ctx_le (k : Ctx Nat) (t : Tree Nat) : k.length ≤ (plug k t).toList.length := by
  induction k generalizing t with
  | nil => exact Nat.zero_le _
  | cons f k ih =>
    rw [toList_plug]
    have := ih .nil
    rw [toList_plug] at this
    obtain ⟨d, c, x, u⟩ := f
    cases d <;> simp only [Ctx.before, Ctx.after, List.length_append, List.length_cons,
      Tree.toList_nil, List.length_nil] at this ⊢ <;> omega

/-- The memory of `s` is the tree `t`, with a black sentinel. -/
structure Represents (s : RbTree) (t : Tree Nat) : Prop where
  laid : s.Laid [] t
  nilCol : (s.mem s.nil).col = .black

/-- Writing to a node outside the tree. -/
theorem Laid.modify (h : s.Laid k t) (f : RbNode → RbNode) (hx : x ∉ (plug k t).toList) :
    (s.modify x f).Laid k t := by
  rw [toList_plug, List.mem_append, List.mem_append, not_or, not_or] at hx
  refine ⟨?_, ?_, h.nodup⟩
  · refine h.ctx.congr (fun z hz => mem_modify_of_ne _ ?_) rfl rfl
    rintro rfl
    exact hz.elim hx.1 hx.2.2
  · refine h.tree.congr (fun z hz => mem_modify_of_ne _ ?_) rfl
    rintro rfl
    exact hx.2.1 hz

section Order

variable (cmp : Nat → Nat → Int)

/-- The order of a comparator. -/
def Le (a b : Nat) : Prop := ¬ cmp b a < 0

/-- A comparator whose order is a total preorder. -/
structure TotalPreorder : Prop where
  total : ∀ a b, Le cmp a b ∨ Le cmp b a
  trans : ∀ a b c, Le cmp a b → Le cmp b c → Le cmp a c

variable {cmp}

/-- The search of `rbtree_insert` ends at an empty hole where the new node belongs. -/
theorem insertSearch_spec (hcmp : TotalPreorder cmp) (new fuel : Nat) (h : s.Laid k t)
    (hsorted : (plug k t).toList.Pairwise (Le cmp))
    (hside : ∀ f ∈ k.head?, cmp new f.label < 0 ↔ f.side = .left)
    (hbefore : ∀ z ∈ Ctx.before k, Le cmp z new) (hafter : ∀ z ∈ Ctx.after k, Le cmp new z)
    (hfuel : t.toList.length < fuel) :
    ∃ k', insertSearch cmp s new fuel (s.ptr t) (s.parentOf k) = some (s.parentOf k') ∧
      s.Laid k' .nil ∧ plug k' .nil = plug k t ∧
      (∀ f ∈ k'.head?, cmp new f.label < 0 ↔ f.side = .left) ∧
      (∀ z ∈ Ctx.before k', Le cmp z new) ∧ ∀ z ∈ Ctx.after k', Le cmp new z := by
  induction fuel generalizing k t with
  | zero => exact absurd hfuel (Nat.not_lt_zero _)
  | succ fuel ih =>
    unfold insertSearch
    cases t with
    | nil =>
      rw [if_pos (by rfl)]
      exact ⟨k, rfl, h, rfl, hside, hbefore, hafter⟩
    | node c l x r =>
      obtain ⟨hx, hxm, -, -⟩ := h.tree
      rw [show s.ptr (.node c l x r) = x from rfl, if_neg hx, hxm]
      have hlist := hsorted
      rw [toList_plug, Tree.toList_node] at hlist
      simp only [List.pairwise_append, List.pairwise_cons, List.mem_append, List.mem_cons] at hlist
      obtain ⟨-, ⟨⟨-, ⟨hxr, -⟩, hlx⟩, -, -⟩, -⟩ := hlist
      simp only [Tree.toList_node, List.length_append, List.length_cons] at hfuel
      by_cases hlt : cmp new x < 0
      · rw [if_pos hlt]
        have hnx : Le cmp new x := (hcmp.total x new).resolve_left fun h => h hlt
        refine ih (k := ⟨.left, c, x, r⟩ :: k) (t := l) (Laid.down h) hsorted (by simp [hlt])
          hbefore (fun z hz => ?_) (by omega)
        rcases List.mem_append.mp hz with hz | hz
        · rcases List.mem_cons.mp hz with rfl | hz
          · exact hnx
          · exact hcmp.trans _ _ _ hnx (hxr z hz)
        · exact hafter z hz
      · rw [if_neg hlt]
        refine ih (k := ⟨.right, c, x, l⟩ :: k) (t := r) (Laid.down h) hsorted (by simp [hlt])
          (fun z hz => ?_) hafter (by omega)
        rcases List.mem_append.mp hz with hz | hz
        · exact hbefore z hz
        · rcases List.mem_append.mp hz with hz | hz
          · exact hcmp.trans _ _ _ (hlx z hz x (Or.inl rfl)) hlt
          · rw [List.mem_singleton.mp hz]
            exact hlt

/-- A fresh red node in an empty hole. -/
theorem Laid.leaf {f : Frame Nat} {new : Nat} (h : s.Laid (f :: k) .nil)
    (hnew : new ∉ (plug (f :: k) .nil).toList) (hne : new ≠ s.nil)
    (hmem : s.mem new = ⟨.red, s.nil, s.nil, s.nil⟩) :
    ((s.setParent new f.label).setChild f.side f.label new).Laid (f :: k)
      (.node .red .nil new .nil) := by
  have h₁ : (s.setParent new f.label).Laid (f :: k) .nil := h.modify _ hnew
  obtain ⟨hdist, -, -⟩ := nodup_plug_iff.mp h.nodup
  rw [toList_plug, Tree.toList_nil, List.nil_append, List.mem_append, not_or] at hnew
  have hnf : new ≠ f.label := by
    rintro rfl
    obtain ⟨d, c, x, u⟩ := f
    cases d <;> simp [Ctx.before, Ctx.after] at hnew
  refine ⟨setChild_ctx h₁.ctx hdist, ⟨hne, ?_, trivial, trivial⟩,
    nodup_plug_iff.mpr ⟨hdist, ?_, ?_⟩⟩
  · rw [RbTree.setChild, mem_modify_of_ne _ hnf, RbTree.setParent, mem_modify_self, hmem]
    rfl
  · simp
  · intro z hz
    obtain rfl : z = new := by simpa using hz
    exact hnew

theorem insert_linked {new : Nat} {f : Frame Nat} (hside : cmp new f.label < 0 ↔ f.side = .left) :
    (if cmp new f.label < 0 then s.setChild .left f.label new
      else s.setChild .right f.label new) = s.setChild f.side f.label new := by
  cases hf : f.side with
  | left => rw [if_pos (hside.mpr hf)]
  | right => rw [if_neg fun hlt => by simp [hside.mp hlt] at hf]

/-- `rbtree_insert` returns, and keeps balance and order. -/
theorem rbtreeInsert_spec (hcmp : TotalPreorder cmp) {new m fuel : Nat} (h : s.Represents t)
    (hbal : Balanced t .black m) (hsorted : t.toList.Pairwise (Le cmp)) (hnew : new ∉ t.toList)
    (hne : new ≠ s.nil) (hnull : new ≠ 0) (hfuel : t.toList.length < fuel) :
    ∃ s' t', rbtreeInsert fuel cmp s new = some s' ∧ s'.Represents t' ∧
      (∃ m, Balanced t' .black m) ∧ t'.toList.Pairwise (Le cmp) ∧
      t'.toList.Perm (new :: t.toList) ∧ s'.nil = s.nil := by
  unfold rbtreeInsert
  rw [if_neg hnull]
  set s₁ := s.modify new fun _ => ⟨.red, s.nil, s.nil, s.nil⟩ with hs₁
  have h₁ : s₁.Laid [] t := h.laid.modify _ hnew
  have hnew₁ : s₁.mem new = ⟨.red, s.nil, s.nil, s.nil⟩ := mem_modify_self _ _
  have hnil₁ : (s₁.mem s.nil).col = .black := by
    rw [hs₁, mem_modify_of_ne _ (Ne.symm hne), h.nilCol]
  cases t with
  | nil =>
    -- the first node becomes a black root
    rw [if_pos (show s₁.root = s₁.nil from h₁.ctx)]
    refine ⟨_, .node .black .nil new .nil, rfl, ⟨⟨rfl, ⟨hne, ?_, trivial, trivial⟩, by simp [plug]⟩,
      ?_⟩, ⟨_, .black .nil .nil⟩, by simp, by simp, rfl⟩
    · rw [RbTree.setCol, mem_modify_self]
      rw [hnew₁]
      rfl
    · exact (congrArg RbNode.col (mem_modify_of_ne _ (Ne.symm hne))).trans hnil₁
  | node c l x r =>
    have hroot : s₁.root = s₁.ptr (.node c l x r) := h₁.ctx
    have hrootne : ¬ s₁.root = s₁.nil := by
      rw [hroot]
      exact h₁.tree.1
    rw [if_neg hrootne, hroot]
    obtain ⟨k, hsearch, hlaid, hplug, hside, hbefore, hafter⟩ := insertSearch_spec hcmp new
      fuel h₁ hsorted (by simp) (by simp [Ctx.before]) (by simp [Ctx.after]) hfuel
    rw [show s₁.parentOf [] = s₁.nil from rfl] at hsearch
    cases k with
    | nil => exact absurd hplug (by simp [plug])
    | cons f k =>
      have hplug : plug (f :: k) .nil = .node c l x r := hplug
      have hnewk : new ∉ (plug (f :: k) .nil).toList := by rwa [hplug]
      have hleaf := hlaid.leaf hnewk hne hnew₁
      obtain ⟨cn, n, hn, hhole⟩ := balanced_plug_iff.mp ⟨m, hplug ▸ hbal⟩
      cases hn
      simp only [hsearch, parentOf, Option.bind_eq_bind, Option.bind_some, insert_linked
        (hside f (by simp))]
      set s₂ := (s₁.setParent new f.label).setChild f.side f.label new with hs₂
      have hnil₂ : s₂.mem s.nil = s₁.mem s.nil := by
        rw [hs₂, RbTree.setChild,
          mem_modify_of_ne _ (show s.nil ≠ f.label from Ne.symm hlaid.above.1), RbTree.setParent,
          mem_modify_of_ne _ (Ne.symm hne)]
      obtain ⟨s₃, t', hs₃, h₃, hsame, ⟨m', hbal'⟩, hlist⟩ := insertFixup_spec fuel hleaf
        (.red .nil .nil) hhole (by rw [show s₂.nil = s.nil from rfl, hnil₂, hnil₁])
        (by have := length_ctx_le (f :: k) .nil; rw [hplug] at this; omega)
      rw [show s₂.ptr (.node .red .nil new .nil) = new from rfl] at hs₃
      rw [toList_plug] at hlist
      have hne' : t' ≠ .nil := by
        rintro rfl
        exact absurd (congrArg List.length hlist) (by simp)
      obtain ⟨c', l', x', r', rfl⟩ : ∃ c l x r, t' = .node c l x r := by
        cases t' with
        | nil => exact absurd rfl hne'
        | node c l x r => exact ⟨c, l, x, r, rfl⟩
      have hroot₃ : s₃.root = x' := h₃.ctx
      obtain ⟨h₄, hsame₄⟩ := Laid.setCol (d := .left) h₃ .black
      have hlist' : (Tree.node c l x r).toList = Ctx.before (f :: k) ++ Ctx.after (f :: k) := by
        grind [Tree.toList, toList_plug]
      refine ⟨s₃.setCol x' .black, .node .black l' x' r', ?_, ⟨h₄, ?_⟩, ⟨m', hbal'⟩, ?_, ?_, ?_⟩
      · rw [hs₃]
        simp [hroot₃]
      · have hall := (hsame.trans hsame₄)
        rw [hall.nil, hall.mem, show s₂.nil = s.nil from rfl, hnil₂, hnil₁]
      · grind [Tree.toList_node, Tree.toList_nil]
      · grind [Tree.toList_node, Tree.toList_nil]
      · exact (hsame.trans hsame₄).nil

end Order

end RbTree

end Ukernel.Lib
